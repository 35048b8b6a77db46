import IbexHarness.Idempotency.Lemmas.Ledger
import IbexHarness.Idempotency.Redis

/-! What the ledger and the Redis store do for a key nobody else uses meanwhile. -/

namespace IbexHarness.Idempotency

open Lib World

inductive KeyRecord (β : Type) where
  | free
  | pending (fingerprint : Text)
  | completed (fingerprint : Text) (status : Int) (body : β)
deriving DecidableEq

inductive Kind (β : Type) where
  | owned
  | replay (status : Int) (body : β)
  | conflict
  | inProgress

def Kind.isReplay {β : Type} : Kind β → Bool
  | .replay _ _ => true
  | _ => false

def KeyRecord.claim {β : Type} (fingerprint : Text) : KeyRecord β → Kind β × KeyRecord β
  | .free => (.owned, .pending fingerprint)
  | .pending fp => (if fp ≠ fingerprint then .conflict else .inProgress, .pending fp)
  | .completed fp status body =>
    (if fp ≠ fingerprint then .conflict else .replay status body, .completed fp status body)

def KeyRecord.isPending {β : Type} : KeyRecord β → Bool
  | .pending _ => true
  | _ => false

/-! ## The ledger -/

def ClaimOutcome.kind : ClaimOutcome → Kind (List UInt8)
  | .owned _ => .owned
  | .replay _ status response => .replay status response
  | .conflict _ => .conflict
  | .inProgress _ _ => .inProgress

def Row.keyRecord (r : Row) : Option (KeyRecord (List UInt8)) :=
  match r.state with
  | .claimed (some _) => some (.pending r.requestHash)
  | .finalized status response => some (.completed r.requestHash status response)
  | _ => none

theorem resolveClaim_kind {t : Table Row} {c : ClaimCall} {row : Row} {now appNow : Int} {k : KeyRecord (List UInt8)}
    (hlease : ∀ lease, row.state = .claimed (some lease) → appNow < lease) (hk : row.keyRecord = some k) :
    ∃ out, resolveClaim t c row now appNow = .ok (out, t) ∧ out.kind = (k.claim c.requestHash).1 := by
  unfold Row.keyRecord at hk
  by_cases hhash : row.requestHash = c.requestHash
  · split at hk
    case h_1 lease hstate =>
      cases hk
      refine ⟨.inProgress (tokenOf c row) (retryAfter c.side lease appNow), ?_, ?_⟩
      · simp [resolveClaim, hhash, hstate, hlease lease hstate]
      · simp [KeyRecord.claim, hhash, ClaimOutcome.kind]
    case h_2 status response hstate =>
      cases hk
      refine ⟨.replay (tokenOf c row) status response, ?_, ?_⟩
      · simp [resolveClaim, hhash, hstate]
      · simp [KeyRecord.claim, hhash, ClaimOutcome.kind]
    case h_3 => cases hk
  · refine ⟨.conflict (tokenOf c row), by simp [resolveClaim, hhash], ?_⟩
    split at hk <;> cases hk <;> simp [KeyRecord.claim, hhash, ClaimOutcome.kind]

/-! ## The store -/

def Redis.Outcome.kind : Redis.Outcome → Kind (List UInt8)
  | .miss _ => .owned
  | .hit r => .replay r.status r.body
  | .conflict _ => .conflict
  | .inProgress _ => .inProgress

def Redis.Record.keyRecord (r : Redis.Record) : KeyRecord (List UInt8) :=
  match r.state with
  | .pending => .pending r.fingerprint
  | .completed => .completed r.fingerprint r.status r.body

theorem Redis.inspect_kind (own : PendingOwner) (r : Record) :
    (inspect own r).kind = (r.keyRecord.claim own.fingerprint).1 := by
  unfold Redis.inspect Redis.Record.keyRecord
  by_cases hfp : r.fingerprint = own.fingerprint
  · rw [if_neg (not_not.mpr hfp)]
    cases r.state <;> simp [KeyRecord.claim, hfp, Outcome.kind]
  · rw [if_pos hfp]
    cases r.state <;> simp [KeyRecord.claim, hfp, Outcome.kind]

end IbexHarness.Idempotency
