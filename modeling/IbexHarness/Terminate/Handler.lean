import IbexHarness.Idempotency.Key

/-! `services/proxy/internal/http/session_terminate.go` up to the job that `Recovery` models. -/

namespace IbexHarness.Terminate

open Lib IbexHarness.Idempotency

inductive AnswerCode where
  | methodNotAllowed
  | validationError
  | internalError
  | invalidJSON
  | serviceDegraded
  | idempotencyKeyReuse
  | idempotencyInProgress
  | invalidRequest
deriving DecidableEq

inductive Answer where
  | error (status : Int) (code : AnswerCode) (message detail : String)
  | json (status : Int) (body : Text)
deriving DecidableEq

inductive CompleteResult where
  | ok
  | noop
  | notFound

structure TerminateRequestBody where
  reason : Text
  status : Text

/-- `body` is none if it cannot be read or decoded; the identities come from the request's context. -/
structure TerminateRequest where
  method : Text
  sessionId : Text
  authOrgId : Option Uuid
  agentId : Option Uuid
  body : Option TerminateRequestBody
  idempotencyKey : Text

/-- `completeByExternalID` is none without a store, and its error is an outcome. -/
structure SessionTerminateHandler where
  ledger : Bool
  completeByExternalID : Option (Uuid → Uuid → Text → Option CompleteResult)
  /-- `HashRequest` -/
  hashRequest : Text → Text
  marshalBody : TerminateRequestBody → Text
  terminateOKBody : Text → Text

structure TerminateIdentity where
  orgId : Uuid
  agentId : Uuid
  externalId : Text
deriving DecidableEq

def validationError (detail : String) : Answer := .error 400 .validationError "Request validation failed" detail

def requireMethod (q : TerminateRequest) : Except Answer Unit :=
  if q.method = "POST".toList then .ok ()
  else .error (.error 405 .methodNotAllowed "Method not allowed" "expected POST")

def resolveTerminateIdentity (q : TerminateRequest) : Except Answer TerminateIdentity :=
  let externalId := Text.trimSpace q.sessionId
  if externalId.isEmpty then .error (validationError "session_id path parameter is required")
  else match q.authOrgId, q.agentId with
    | none, _ => .error (.error 500 .internalError "Internal error" "missing auth context")
    | some _, none => .error (.error 500 .internalError "Internal error" "missing agent context")
    | some orgId, some agentId => .ok ⟨orgId, agentId, externalId⟩

def validateTerminateBody (q : TerminateRequest) : Except Answer TerminateRequestBody :=
  match q.body with
  | none => .error (.error 400 .invalidJSON "Malformed JSON in request body" "")
  | some body =>
    let body := { body with status := Text.trimSpace body.status }
    if body.status = "completed".toList then .ok body
    else .error (validationError "status must be \x22completed\x22")

def parseTerminateKey (q : TerminateRequest) : Except Answer Text :=
  let key := Text.trimSpace q.idempotencyKey
  if key.isEmpty then .error (validationError "Idempotency-Key is required for session termination")
  else if 256 < Text.byteLength key then
    .error (validationError "Idempotency-Key must be 256 characters or fewer")
  else .ok key

section

variable (h : SessionTerminateHandler)

def SessionTerminateHandler.requestHash (id : TerminateIdentity) (body : TerminateRequestBody) : Text :=
  h.hashRequest (id.externalId ++ '\x00' :: "terminate".toList ++ '\x00' :: h.marshalBody body ++ ['\x00'])

def writeClaimOutcome : Kind Text → Option Answer
  | .replay status body => some (.json status body)
  | .conflict =>
    some (.error 409 .idempotencyKeyReuse "Idempotency-Key was already used with a different request" "")
  | .inProgress =>
    some (.error 409 .idempotencyInProgress "A request with this Idempotency-Key is still in progress" "")
  | .owned => none

def completeSession (id : TerminateIdentity) : Except Answer CompleteResult :=
  match h.completeByExternalID with
  | none => .error (.error 503 .serviceDegraded "Session store unavailable" "")
  | some complete =>
    match complete id.orgId id.agentId id.externalId with
    | none => .error (.error 503 .serviceDegraded "Session terminate failed" "")
    | some .notFound => .error (.error 404 .invalidRequest "Session not found" "")
    | some result => .ok result

/-- The answer, the record of the key and whether the enqueue job is started. -/
structure Served where
  answer : Answer
  record : KeyRecord Text
  enqueue : Bool

/-- The request behind the claim; `finalizeTermination` stores the response. -/
def terminate (id : TerminateIdentity) (requestHash : Text) (record : KeyRecord Text) : Served :=
  match completeSession h id with
  | .error answer => ⟨answer, record, false⟩
  | .ok _ =>
    let response := h.terminateOKBody id.externalId
    ⟨.json 200 response, if h.ledger then .completed requestHash 200 response else record, true⟩

def recoverReplayEnqueue (id : TerminateIdentity) : Bool :=
  match completeSession h id with
  | .error _ => false
  | .ok _ => true

/-- The claim that `admitTermination` makes, if the request gets there. -/
def admitTermination (q : TerminateRequest) : Except Answer (TerminateIdentity × Option Text) := do
  requireMethod q
  let id ← resolveTerminateIdentity q
  let body ← validateTerminateBody q
  if h.ledger then
    let _ ← parseTerminateKey q
    return (id, some (h.requestHash id body))
  return (id, none)

def serveHTTP (q : TerminateRequest) (record : KeyRecord Text) : Served :=
  match admitTermination h q with
  | .error answer => ⟨answer, record, false⟩
  | .ok (id, none) => terminate h id [] record
  | .ok (id, some requestHash) =>
    let (kind, record) := record.claim requestHash
    match writeClaimOutcome kind with
    | some answer => ⟨answer, record, kind.isReplay && recoverReplayEnqueue h id⟩
    | none => terminate h id requestHash record

def ClaimGranted (q : TerminateRequest) (record : KeyRecord Text) : Prop :=
  ∃ id requestHash, admitTermination h q = .ok (id, some requestHash) ∧ (record.claim requestHash).1 = .owned

end

end IbexHarness.Terminate
