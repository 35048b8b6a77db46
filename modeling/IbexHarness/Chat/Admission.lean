import IbexHarness.Billing.Estimate
import IbexHarness.Budget.GoLedger

/-! What the chat handler of the proxy passes around, the dependencies it calls, and its state. -/

namespace IbexHarness.Chat

section

open Lib Budget

/-! ## Requests, responses, errors -/

inductive CtxErr where
  | canceled
  | deadlineExceeded
deriving DecidableEq

structure ProviderError where
  providerName : Text
  statusCode : Int
  providerErrMsg : Text
  reason : String

structure Err where
  canceled : Bool
  deadlineExceeded : Bool
  upstreamTimeout : Bool
  provider : Option ProviderError

structure Message where
  role : Text
  content : Text

structure ProviderRequest where
  model : Text
  messages : List Message
  stream : Bool
  maxTokens : Int
  apiKeyOverride : Text
  baseURLOverride : Text
  tlsServerName : Text

structure ChatCompletionRequest where
  model : Text
  messages : List Message
  stream : Bool
  maxTokens : Option Int

structure Usage where
  inputTokens : Int
  outputTokens : Int

structure Response where
  statusCode : Int
  usage : Option Usage

/-- The values of a request context the handler looks up; a reservation is a pointer into the heap. -/
structure Context where
  requestId : Text
  agentId : Option Uuid
  authOrgId : Option Uuid
  budgetReservation : Option Nat

structure IdempotencyClaim where
  replay : Bool

inductive ErrorCode where
  | budgetUnavailable
  | budgetExceeded
  | authUnavailable
  | invalidToken
  | internalError
  | invalidRequest
  | rateLimited
  | providerTimeout
  | providerUnavailable

structure ApiError where
  code : ErrorCode
  httpStatus : Int
  message : String
  detail : String

/-! ## Dependencies -/

structure BudgetSnapshot where
  hasHardCap : Bool
  publishedCard : Billing.CardVersion

/-- `credentials.Resolve` together with the pinned address of a base URL it returns. -/
structure Credential where
  platformDefault : Bool
  apiKey : Text
  baseURL : Text
  pinned : Option (Text × Text)

inductive RouteError where
  | modelNotAllowedForOrg
  | noProviderForModel
  | other

inductive PipelineError where
  | invalidJSON
  | stageFailed
  | serialize

inductive ReadError where
  | tooLarge
  | failed (err : Err)

/-- How a stream ended: the text and usage drained from it, and whether it was complete. -/
structure StreamCheckpointResult where
  content : Text
  usage : Option Usage
  complete : Bool

structure ChatCompletionHandler where
  /-- `Claim` of the budget ledger; no outcome stands for an error -/
  budgetLedger : Option (Nat → Principal → ClaimRequest → Option Go.ClaimOutcome)
  /-- `SnapshotForOrg` of the budget cache -/
  budgetCache : Option (Nat → Uuid → Option BudgetSnapshot)
  /-- `FallbackChain` of the policy registry -/
  policyFallback : Option (Nat → Uuid → Text → Option (List Text))
  /-- `ForOrg` of the model router: the name of the provider -/
  modelRouter : Option (Nat → Uuid → Text → Except RouteError Text)
  /-- `Resolve` for an organization, a provider and a bearer token -/
  credentialResolver : Option (Nat → Uuid → Text → Text → Option Credential)
  maxFallbackDepth : Int
  globs : Billing.Globs
  hashRequest : Text → Text
  sanitizeProviderDetail : Text → String
  usageFromJSON : Text → Option Usage

/-- The client, the providers and the idempotency layer of one request. -/
structure Env where
  ctxErr : Nat → Option CtxErr
  /-- the token of the `Authorization` header, when it parses and is not blank -/
  bearer : Option Text
  resolveIdempotency : Nat → Option (Option IdempotencyClaim)
  applyInjection : Nat → Text → List Message → List Message
  complete : Nat → Text → ProviderRequest → Except Err Response
  readAllBody : Nat → Except ReadError Text
  processResponseBody : Nat → Text → Except PipelineError Text
  streamCopy : Nat → StreamCheckpointResult
  /-- the `ResponseWriter` implements `http.Flusher` -/
  flusher : Bool

/-! ## State -/

structure BudgetReservation where
  claim : Reservation
  estimatedCents : Int
  card : Billing.CardVersion
  settled : Bool

inductive Event where
  | claim (p : Principal) (req : ClaimRequest) (out : Option Go.ClaimOutcome)
  | finalize (c : Reservation) (amount : Int) (completeness : Completeness)
  | release (c : Reservation) (reason : String)
  | complete (provider : Text) (req : ProviderRequest)
  | abandonIdempotency (claim : Option IdempotencyClaim)
  | finishIdempotency (claim : Option IdempotencyClaim) (status : Int)
  | replayIdempotency
  | writeError (err : ApiError)
  | writeJSON (status : Int) (body : Text) (fallbackModel : Text)
  | writeStream (fallbackModel : Text)

def Event.owned? : Event → Option Reservation
  | .claim _ _ out => out.bind Go.ClaimOutcome.token?
  | _ => none

def Event.settled? : Event → Option Reservation
  | .finalize c _ _ | .release c _ => some c
  | _ => none

structure State where
  tick : Nat
  heap : List BudgetReservation
  trace : List Event

def State.start : State := ⟨0, [], []⟩

abbrev HandlerM := StateM State

def ask {α : Type} (question : Nat → α) : HandlerM α :=
  modifyGet fun s => (question s.tick, { s with tick := s.tick + 1 })

def emit (e : Event) : HandlerM Unit := modify fun s => { s with trace := s.trace ++ [e] }

def newReservation (res : BudgetReservation) : HandlerM Nat :=
  modifyGet fun s => (s.heap.length, { s with heap := s.heap ++ [res] })

def markSettled (ptr : Nat) : HandlerM Unit :=
  modify fun s => { s with heap := s.heap.modify ptr fun res => { res with settled := true } }

def budgetReservationFromContext (ctx : Context) : HandlerM (Option (Nat × BudgetReservation)) := do
  let s ← get
  return ctx.budgetReservation.bind fun ptr => s.heap[ptr]?.map (ptr, ·)

end

/-! `services/proxy/internal/http/budget_admission.go`: taking, replacing and settling the hold of a chat
request. -/

open Lib Budget Billing

/-! ## Estimates -/

def budgetDefaultOutputTokens : Int := 4096
def budgetTokensPerMessage : Int := 4
def budgetBytesPerToken : Nat := 4

def messageTokenHeuristic (content : Text) : Int :=
  if content.isEmpty then 0 else max (Text.byteLength content / budgetBytesPerToken : Nat) content.length

def estimateInputTokens (messages : List Message) : Int :=
  (messages.map fun m => budgetTokensPerMessage + messageTokenHeuristic m.content).sum

def maxTokensFromParsed (parsed : ChatCompletionRequest) : Int := parsed.maxTokens.getD 0

def estimateOutputTokens (maxTokens : Int) : Int :=
  if 0 < maxTokens then maxTokens else budgetDefaultOutputTokens

def estimateCostChecked (g : Globs) (card : CardVersion) (provider model : Text) (inTok outTok : Int) : Option Int :=
  match estimateCost g card ⟨provider, model, inTok, outTok⟩ with
  | .ok (cents, _) => some cents
  | .error _ => none

structure AdmissionInput where
  provider : Text
  model : Text
  messages : List Message
  maxTokens : Int

def estimateAdmissionCents (g : Globs) (card : CardVersion) (i : AdmissionInput) : Option Int :=
  estimateCostChecked g card i.provider i.model (estimateInputTokens i.messages) (estimateOutputTokens i.maxTokens)

def hasMeasuredUsage (usage : Option Usage) : Bool :=
  match usage with
  | none => false
  | some u => 0 < u.inputTokens || 0 < u.outputTokens

/-- Measured usage when there is any and it has a price, the admission estimate otherwise. -/
def budgetFinalAmount (g : Globs) (res : BudgetReservation) (provider model : Text) (usage : Option Usage) :
    Int × Completeness :=
  match usage with
  | none => (res.estimatedCents, .estimated)
  | some u =>
    if hasMeasuredUsage usage then
      match estimateCostChecked g res.card provider model u.inputTokens u.outputTokens with
      | some cents => (cents, .complete)
      | none => (res.estimatedCents, .estimated)
    else (res.estimatedCents, .estimated)

/-! ## Responses -/

def writeBudgetAdmissionUnavailable (detail : String) : HandlerM Unit :=
  emit (.writeError ⟨.budgetUnavailable, 503, "Budget enforcement unavailable", detail⟩)

def writeBudgetExceeded : HandlerM Unit :=
  emit (.writeError ⟨.budgetExceeded, 402, "Budget exceeded for this organization",
    "durable reservation would exceed the active hard-cap period"⟩)

/-! ## Identities -/

def tenantIDsFromContext (ctx : Context) : Option (Uuid × Uuid) :=
  match ctx.agentId, ctx.authOrgId with
  | some agent, some org => if org = 0 then none else some (org, agent)
  | _, _ => none

def budgetReservationKey (ctx : Context) : Text :=
  if ctx.requestId.isEmpty then [] else ['c', 'h', 'a', 't', ':'] ++ ctx.requestId

/-- The principal and the reservation key, or the detail of the refusal. -/
def budgetAdmissionIDs (ctx : Context) : Except String (Principal × Text) :=
  match tenantIDsFromContext ctx with
  | none => .error "missing tenant identity for budget admission"
  | some (org, agent) =>
    if (budgetReservationKey ctx).isEmpty then .error "missing request identity for budget admission"
    else .ok (⟨org, agent⟩, budgetReservationKey ctx)

/-! ## Settling -/

section
variable (h : ChatCompletionHandler)

def shouldCommit (status : Int) : Bool := !(status == 429 || 500 ≤ status) && (200 ≤ status && status < 500)

def releaseReservation (res : BudgetReservation) (reason : String) : HandlerM Unit :=
  emit (.release res.claim reason)

def releaseBudget (ctx : Context) (reason : String) : HandlerM Unit := do
  match ← budgetReservationFromContext ctx with
  | none => return
  | some (ptr, res) =>
    if res.settled then return
    markSettled ptr
    releaseReservation res reason

structure BudgetSettlement where
  status : Int
  provider : Text
  model : Text
  usage : Option Usage

def settleBudgetOutcome (ctx : Context) (i : BudgetSettlement) : HandlerM Unit := do
  match ← budgetReservationFromContext ctx with
  | none => return
  | some (ptr, res) =>
    if res.settled then return
    markSettled ptr
    if !shouldCommit i.status then
      releaseReservation res "transient_status"
      return
    let (amount, completeness) := budgetFinalAmount h.globs res i.provider i.model i.usage
    emit (.finalize res.claim amount completeness)

/-! ## Claiming -/

def Context.withBudgetReservation (ctx : Context) (ptr : Nat) : Context :=
  { ctx with budgetReservation := some ptr }

def claimHoldTimed (claim : Nat → Principal → ClaimRequest → Option Go.ClaimOutcome) (p : Principal)
    (req : ClaimRequest) : HandlerM (Option Go.ClaimOutcome) := do
  let out ← ask fun t => claim t p req
  emit (.claim p req out)
  return out

def applyBudgetClaim (r : Context) (out : Go.ClaimOutcome) (estimate : Int) (snap : BudgetSnapshot) :
    HandlerM (Context × Bool) := do
  match out with
  | .owned claim =>
    let ptr ← newReservation ⟨claim, estimate, snap.publishedCard, false⟩
    return (r.withBudgetReservation ptr, true)
  | .noCap => return (r, true)
  | .exceeded _ =>
    writeBudgetExceeded
    return (r, false)
  | .inProgress _ =>
    writeBudgetAdmissionUnavailable "budget admission for this request is still in progress"
    return (r, false)
  | .conflict =>
    writeBudgetAdmissionUnavailable "durable reservation conflict"
    return (r, false)

def claimAndApply (claim : Nat → Principal → ClaimRequest → Option Go.ClaimOutcome) (r : Context) (p : Principal)
    (key : Text) (estimate : Int) (snap : BudgetSnapshot) : HandlerM (Context × Bool) := do
  match ← claimHoldTimed claim p ⟨key, h.hashRequest key, estimate⟩ with
  | none =>
    writeBudgetAdmissionUnavailable "durable reservation claim failed"
    return (r, false)
  | some out => applyBudgetClaim r out estimate snap

/-- Without a ledger, a cache or a hard cap the request passes without a hold. -/
def claimBudgetAdmission (r : Context) (i : AdmissionInput) : HandlerM (Context × Bool) := do
  match h.budgetLedger, h.budgetCache with
  | some claim, some snapshotForOrg =>
    match budgetAdmissionIDs r with
    | .error detail =>
      writeBudgetAdmissionUnavailable detail
      return (r, false)
    | .ok (p, key) =>
      match ← ask fun t => snapshotForOrg t p.orgId with
      | none =>
        writeBudgetAdmissionUnavailable "budget state unavailable"
        return (r, false)
      | some snap =>
        if !snap.hasHardCap then return (r, true)
        match estimateAdmissionCents h.globs snap.publishedCard i with
        | none =>
          writeBudgetAdmissionUnavailable "no published rate card for this provider/model"
          return (r, false)
        | some estimate => claimAndApply h claim r p key estimate snap
  | _, _ => return (r, true)

/-- The claim of `rebudgetForFallback`, made once the old hold is gone. -/
def reclaim (claim : Nat → Principal → ClaimRequest → Option Go.ClaimOutcome) (r : Context) (p : Principal)
    (key : Text) (estimate : Int) (card : CardVersion) : HandlerM (Context × Bool) := do
  match ← claimHoldTimed claim p ⟨key, h.hashRequest key, estimate⟩ with
  | some (.owned c) =>
    let ptr ← newReservation ⟨c, estimate, card, false⟩
    return (r.withBudgetReservation ptr, true)
  | _ => return (r, false)

def rebudgetForFallback (r : Context) (i : AdmissionInput) : HandlerM (Context × Bool) := do
  match ← budgetReservationFromContext r, h.budgetLedger with
  | some (_, res), some claim =>
    match budgetAdmissionIDs r with
    | .error _ => return (r, false)
    | .ok (p, key) =>
      match estimateAdmissionCents h.globs res.card i with
      | none => return (r, false)
      | some estimate =>
        releaseBudget r "fallback_reprice"
        reclaim h claim r p key estimate res.card
  | _, _ => return (r, true)

end

end IbexHarness.Chat
