import IbexHarness.Chat.Provider
import IbexHarness.Idempotency.Key

/-! `services/proxy/internal/http/chat/idempotency.go`: how a request claims its key, and what becomes of the claim. -/

namespace IbexHarness.Chat

open Lib IbexHarness.Idempotency

/-! ## Refusals -/

structure FieldError where
  field : String
  code : String
  message : String
deriving DecidableEq

inductive RefusalCode where
  | validationError
  | serviceDegraded
  | internalError
  | idempotencyKeyReuse
  | idempotencyInProgress
deriving DecidableEq

structure Refusal where
  status : Int
  code : RefusalCode
  message : String
  detail : String
  fields : List FieldError
deriving DecidableEq

def validationRefusal (field : FieldError) (detail : String) : Refusal :=
  ⟨400, .validationError, "Request validation failed", detail, [field]⟩

def keyTooLong : Refusal :=
  validationRefusal
    ⟨"header.Idempotency-Key", "TOO_LONG", "Idempotency-Key must be at most 256 characters"⟩ ""

def keyRequired : Refusal :=
  validationRefusal
    ⟨"header.Idempotency-Key", "REQUIRED", "Idempotency-Key is required for chat completions"⟩
    "Idempotency-Key is required when the durable idempotency profile is enabled"

def streamUnsupported : Refusal :=
  validationRefusal
    ⟨"stream", "UNSUPPORTED_WITH_IDEMPOTENCY", "Idempotency-Key requires stream=false"⟩
    "Idempotency-Key is not supported for streaming requests"

def ledgerUnavailable : Refusal := ⟨503, .serviceDegraded, "Idempotency ledger unavailable", "", []⟩

def fingerprintFailed : Refusal := ⟨500, .internalError, "Internal error", "idempotency fingerprint failed", []⟩

def keyReuse : Refusal :=
  ⟨409, .idempotencyKeyReuse, "Idempotency-Key was already used with a different request", "", []⟩

def keyInProgress (detail : String) : Refusal :=
  ⟨409, .idempotencyInProgress, "A request with this Idempotency-Key is still in progress", detail, []⟩

/-! ## Claiming -/

structure Claim where
  fp : Text
  hit : Option (Int × Text)
  ledger : Bool
deriving DecidableEq

def Claim.replay (c : Claim) : Bool := c.hit.isSome

structure Idempotency where
  ledger : Bool
  store : Bool

/-- What `Resolve` reads of a request besides its parsed body: the header, the authenticated principal and the two
fingerprints of the body, with the operation and `skip_memory` for the ledger and without them for the store. -/
structure KeyedRequest where
  header : Text
  orgId : Option Uuid
  agentId : Option Uuid
  ledgerFingerprint : Option Text
  storeFingerprint : Option Text

inductive ParsedKey where
  | absent
  | tooLong
  | key (key : Text)
deriving DecidableEq

def maxIdempotencyKeyLen : Nat := 256

def parseKey (header : Text) : ParsedKey :=
  let raw := Text.trimSpace header
  if raw.isEmpty then .absent
  else if maxIdempotencyKeyLen < raw.length then .tooLong
  else .key raw

/-- A response has been written, or the handler goes on with a claim or without one. -/
inductive Resolution where
  | refused (refusal : Refusal)
  | goOn (claim : Option Claim)
deriving DecidableEq

def orgIDFromAuth (q : KeyedRequest) : Option Uuid := q.orgId.filter (· ≠ 0)

def ledgerPrincipal (q : KeyedRequest) : Option Principal :=
  (orgIDFromAuth q).bind fun org => (q.agentId.filter (· ≠ 0)).map fun agent => ⟨org, agent⟩

def applyOutcome (ledger : Bool) (inProgressDetail : String) (fp : Text) : Kind Text → Resolution
  | .owned => .goOn (some ⟨fp, none, ledger⟩)
  | .replay status body => .goOn (some ⟨fp, some (status, body), false⟩)
  | .conflict => .refused keyReuse
  | .inProgress => .refused (keyInProgress inProgressDetail)

/-- `Claim` refuses a call that `validClaim` rejects before it opens a transaction. -/
def claimLedger (q : KeyedRequest) (key : Text) (record : KeyRecord Text) : Resolution × KeyRecord Text :=
  match ledgerPrincipal q with
  | none => (.refused ledgerUnavailable, record)
  | some principal =>
    match q.ledgerFingerprint with
    | none => (.refused fingerprintFailed, record)
    | some fp =>
      if validClaim principal (Text.trimSpace key) (Text.trimSpace fp) then
        ((applyOutcome true "" fp (record.claim fp).1), (record.claim fp).2)
      else (.refused ledgerUnavailable, record)

def claimStore (q : KeyedRequest) (record : KeyRecord Text) : Resolution × KeyRecord Text :=
  match orgIDFromAuth q with
  | none => (.goOn none, record)
  | some _ =>
    match q.storeFingerprint with
    | none => (.refused fingerprintFailed, record)
    | some fp => ((applyOutcome false "retry after a short backoff" fp (record.claim fp).1), (record.claim fp).2)

namespace Idempotency

def resolveMissingKey (id : Idempotency) (parsed : ChatCompletionRequest) : Resolution :=
  if !id.ledger || parsed.stream then .goOn none else .refused keyRequired

def resolve (id : Idempotency) (q : KeyedRequest) (parsed : ChatCompletionRequest) (record : KeyRecord Text) :
    Resolution × KeyRecord Text :=
  match parseKey q.header with
  | .absent => (id.resolveMissingKey parsed, record)
  | .tooLong => (.refused keyTooLong, record)
  | .key key =>
    if parsed.stream then (.refused streamUnsupported, record)
    else if id.ledger then claimLedger q key record
    else if !id.store then (.goOn none, record)
    else claimStore q record

/-! ## Finishing -/

/-- The body is stored unless it is too large or the status is transient. -/
def commitOrRelease (claim : Claim) (status : Int) (body : Text) : KeyRecord Text :=
  if !shouldCommit status || Redis.maxProviderResponseBytes < Text.byteLength body then .free
  else .completed claim.fp status body

/-- `Finish`, and `FinishCapture` with what was captured: a capture that was capped is released. -/
def finish (id : Idempotency) (claim : Option Claim) (status : Int) (body : Text) (record : KeyRecord Text) :
    KeyRecord Text :=
  match claim with
  | none => record
  | some claim =>
    if id.ledger then
      if claim.ledger then commitOrRelease claim status body else record
    else if id.store then commitOrRelease claim status body
    else record

def abandon (id : Idempotency) (claim : Option Claim) (record : KeyRecord Text) : KeyRecord Text :=
  match claim with
  | none => record
  | some claim =>
    if id.ledger && claim.ledger then .free
    else if id.store then .free
    else record

/-! ## The handler -/

structure Settling where
  record : KeyRecord Text
  written : Text

/-- What an event of the handler does to the key that `claim` is for. `errorBody` is the text of an error response. -/
def settle (id : Idempotency) (errorBody : ApiError → Text) (claim : Claim) (s : Settling) : Event → Settling
  | .writeError err => { s with written := errorBody err }
  | .writeJSON _ body _ => { s with written := body }
  | .abandonIdempotency c => { s with record := id.abandon (c.map fun _ => claim) s.record }
  | .finishIdempotency c status => { s with record := id.finish (c.map fun _ => claim) status s.written s.record }
  | _ => s

end Idempotency

def Resolution.claim? : Resolution → Option (Option IdempotencyClaim)
  | .refused _ => none
  | .goOn claim => some (claim.map fun c => ⟨c.replay⟩)

def Env.withKey (env : Env) (resolution : Resolution) : Env :=
  { env with resolveIdempotency := fun _ => resolution.claim? }

def serve (id : Idempotency) (errorBody : ApiError → Text) (h : ChatCompletionHandler) (env : Env) (r : Context)
    (parsed : ChatCompletionRequest) (prov : Text) (q : KeyedRequest) (record : KeyRecord Text) : KeyRecord Text :=
  match id.resolve q parsed record with
  | (.goOn (some claim), record) =>
    let events := ((forwardChatCompletion h (env.withKey (.goOn (some claim))) r parsed prov).run State.start).2.trace
    (events.foldl (id.settle errorBody claim) ⟨record, []⟩).record
  | (_, record) => record

end IbexHarness.Chat
