import IbexHarness.Anthropic.Request
import IbexHarness.AsyncPool.Theorems
import IbexHarness.Audit.Theorems
import IbexHarness.AuthCache.Theorems
import IbexHarness.Billing.Pricing
import IbexHarness.Billing.Theorems
import IbexHarness.Budget.Theorems
import IbexHarness.Capture.Theorems
import IbexHarness.Chat.Theorems
import IbexHarness.Context.Theorems.Merging
import IbexHarness.Context.Theorems.Packing
import IbexHarness.Directive.Theorems
import IbexHarness.Extraction.Theorems
import IbexHarness.ExtractionBuffer.Theorems
import IbexHarness.Idempotency.Handlers
import IbexHarness.Idempotency.Theorems
import IbexHarness.Memory.Supersession
import IbexHarness.Memory.Theorems
import IbexHarness.ModelPolicy.Theorems
import IbexHarness.OrgDeletion.Theorems.Completion
import IbexHarness.OrgDeletion.Theorems.Jobs
import IbexHarness.Outbox.Theorems
import IbexHarness.PolicySnapshot.Theorems
import IbexHarness.RateLimit.Loading
import IbexHarness.RateLimit.Theorems
import IbexHarness.Redissub.Backoff
import IbexHarness.Redissub.Loop
import IbexHarness.Retrieval.Theorems
import IbexHarness.Session.Theorems
import IbexHarness.Ssrf.Theorems
import IbexHarness.Stream.Accumulator
import IbexHarness.Terminate.Flight
import IbexHarness.Terminate.Theorems
import IbexHarness.Totp.Theorems
import IbexHarness.Turns.Theorems
import IbexHarness.UsageFacts.Theorems
import IbexHarness.UsageQuery.Theorems
import IbexHarness.Users.Theorems
