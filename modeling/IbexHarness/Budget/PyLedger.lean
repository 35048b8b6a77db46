import IbexHarness.Billing.Estimate
import IbexHarness.Budget.Schema
import Mathlib.Data.List.Sort

/-! `_AsyncBudgetLedger` of `services/worker/app/budget_ledger.py`, each transaction run alone. -/

namespace IbexHarness.Budget.Py

open Lib

inductive DenyKind where
  | conflict
  | inProgress
  | exceeded
  | noRateCard
deriving DecidableEq

inductive LedgerError where
  | ledger (message : String)
  /-- `BudgetLedgerUnavailableError`, raised for every `SQLAlchemyError` -/
  | unavailable (message : String)
  | claimClosed
  | denied (kind : DenyKind) (retryAfter : Option Int)
deriving DecidableEq

def budgetLedgerLease : Int := 900 * 1000000

structure Ledger where
  lease : Int
  lease_ge : 1000000 ≤ lease

def newLedger (lease : Int) : Ledger := ⟨max 1000000 lease, le_max_left _ _⟩

/-! ## Prices -/

/-- The rates of the matched rate-card row; only those below `2 ^ 31` fit the two `INTEGER` columns they are stored
in. -/
structure Price where
  inputCentsPer1k : Nat
  outputCentsPer1k : Nat

/-- The rates are not negative here, and so the cents are not. -/
def costFromRates (inputCentsPer1k outputCentsPer1k : Nat) (inputTokens outputTokens : Int) : Option Nat :=
  (Billing.Py.costFromRates inputCentsPer1k outputCentsPer1k inputTokens outputTokens).map Int.toNat

/-! ## Claim -/

/-- `BudgetClaimRequest` without the provider and the model, which only choose the price. -/
structure BudgetClaimRequest where
  principal : Principal
  key : Text
  requestHash : Text
  inputTokens : Int
  outputTokens : Int

structure Admission where
  principal : Principal
  key : Text
  requestHash : Text
  period : Period
  estimatedCents : Nat
  price : Price

/-- What a claim transaction gets from outside: `NOW()`, the id `gen_random_uuid()` would produce and
the price the rate card holds for the request's provider and model. -/
structure ClaimEnv where
  now : Int
  newId : Uuid
  newId_ne_nil : newId ≠ 0
  price : Option Price

def validateClaim (req : BudgetClaimRequest) : Except LedgerError Unit :=
  if req.key.isEmpty || 256 < req.key.length then .error (.ledger "invalid budget claim")
  else if req.requestHash.isEmpty then .error (.ledger "invalid budget claim")
  else .ok ()

def buildAdmission (price : Option Price) (req : BudgetClaimRequest) (period : Period) :
    Except LedgerError Admission :=
  match price with
  | none => .error (.denied .noRateCard none)
  | some price =>
    match costFromRates price.inputCentsPer1k price.outputCentsPer1k req.inputTokens req.outputTokens with
    | none => .error (.denied .noRateCard none)
    | some est =>
      .ok { principal := req.principal, key := req.key, requestHash := req.requestHash, period,
            estimatedCents := est, price }

def retryAfter (now : Int) (row : Row) : Int := max 1 (-((now - row.lease) / 1000000))

def ensureReusable (now : Int) (row : Row) (hash : Text) : Except LedgerError Unit :=
  if row.requestHash != hash then .error (.denied .conflict none)
  else if row.live now then .error (.denied .inProgress (some (retryAfter now row)))
  else .ok ()

def exceeds (ad : Admission) (holds : Nat) : Bool :=
  ad.period.capCents < ad.period.spentCentsCached + holds + ad.estimatedCents

def claimFromRow (row : Row) (ad : Admission) : Reservation where
  id := row.id
  principal := ad.principal
  key := ad.key
  requestHash := ad.requestHash
  periodId := ad.period.id
  version := row.version

def admitFresh (l : Ledger) (t : Table Row) (env : ClaimEnv) (ad : Admission) (holds : Nat) :
    Except LedgerError (Reservation × Table Row) :=
  if exceeds ad holds then .error (.denied .exceeded none)
  else
    match insertReservation t env.newId env.newId_ne_nil ad.principal ad.period.id ad.key ad.requestHash
        ad.estimatedCents (some (ad.price.inputCentsPer1k, ad.price.outputCentsPer1k)) env.now l.lease with
    | .violation => .error (.unavailable "budget ledger claim failed")
    | .nothing => .error (.denied .inProgress (some 1))
    | .row r t' => .ok (claimFromRow r ad, t')

def insertRow (l : Ledger) (t : Table Row) (env : ClaimEnv) (ad : Admission) :
    Except LedgerError (Reservation × Table Row) :=
  admitFresh l t env ad (activeHolds t ad.principal.orgId ad.period.id env.now none)

def resetRow (l : Ledger) (t : Table Row) (env : ClaimEnv) (ad : Admission) (row : Row) :
    Except LedgerError (Reservation × Table Row) :=
  let lease := env.now + l.lease
  let e := resetSql ad.period.id ad.requestHash ad.estimatedCents ad.price.inputCentsPer1k
    ad.price.outputCentsPer1k env.now lease row.id ad.principal ad.key row.version
  match t.returning e with
  | [] => .error (.ledger "budgetledger: reset reservation failed")
  | r :: _ =>
    if leaseCheck lease r.createdAt then .ok (claimFromRow r ad, t.update e)
    else .error (.unavailable "budget ledger claim failed")

def expireStaleRow (t : Table Row) (ad : Admission) (row : Row) : Table Row :=
  t.update (expireEdit row.id ad.principal ad.key row.version)

/-- `_claim_row` on a reusable row, after the holds are summed. The expiry of a stale claim is written
in the transaction that the exception then rolls back: the error keeps the table it was raised in. -/
def admitExisting (l : Ledger) (t : Table Row) (env : ClaimEnv) (ad : Admission) (row : Row) (holds : Nat) :
    Except (LedgerError × Table Row) (Reservation × Table Row) :=
  if exceeds ad holds then
    .error (.denied .exceeded none, if row.isClaimed then expireStaleRow t ad row else t)
  else (resetRow l t env ad row).mapError fun e => (e, t)

def claimRow (l : Ledger) (t : Table Row) (env : ClaimEnv) (ad : Admission) :
    Except (LedgerError × Table Row) (Reservation × Table Row) :=
  match reservationOf t ad.principal ad.key with
  | none => (insertRow l t env ad).mapError fun e => (e, t)
  | some row =>
    match ensureReusable env.now row ad.requestHash with
    | .error e => .error (e, t)
    | .ok () =>
      admitExisting l t env ad row
        (activeHolds t ad.principal.orgId ad.period.id env.now (some row.id))

/-- The end of `service_org_session`: commit, or roll back what the exception left behind. -/
def serviceOrgSession (t : Table Row) : Except (LedgerError × Table Row) (Reservation × Table Row) →
      Except LedgerError (Option Reservation) × Table Row
  | .ok (c, t') => (.ok (some c), t')
  | .error (e, _) => (.error e, t)

/-- The result and the committed reservations; `none` is the answer without a hard cap. -/
def claim (l : Ledger) (db : Db) (env : ClaimEnv) (req : BudgetClaimRequest) :
    Except LedgerError (Option Reservation) × Table Row :=
  match validateClaim req with
  | .error e => (.error e, db.reservations)
  | .ok () =>
    match activePeriod db.periods req.principal.orgId env.now with
    | none => (.ok none, db.reservations)
    | some period =>
      match buildAdmission env.price req period with
      | .error e => (.error e, db.reservations)
      | .ok ad => serviceOrgSession db.reservations (claimRow l db.reservations env ad)

/-! ## Settlement -/

def loadClaimRow (t : Table Row) (c : Reservation) : Option Row :=
  t.rows.find? (Row.isRow c.id c.principal c.key)

def storedRates (row : Row) : Option (Nat × Nat) :=
  match row.priceInputCentsPer1k, row.priceOutputCentsPer1k with
  | some i, some o => some (i, o)
  | _, _ => none

def settleAmount (row : Row) (inputTokens outputTokens : Int) : Nat × Completeness :=
  match storedRates row with
  | none => (row.amountEstimatedCents, .estimated)
  | some (i, o) =>
    if 0 < inputTokens + outputTokens then
      match costFromRates i o inputTokens outputTokens with
      | some measured => (measured, .complete)
      | none => (row.amountEstimatedCents, .estimated)
    else (row.amountEstimatedCents, .estimated)

def replayFinalized (row : Row) (c : Reservation) (amount : Nat) (m : Completeness) :
    Except LedgerError Completeness :=
  if row.version == c.version + 1 && row.state == .finalized amount m then .ok m else .error .claimClosed

/-- `_write_finalized`, `_write_released`: the statement has to change exactly one row. -/
def write (t : Table Row) (e : Edit Row) : Except LedgerError (Table Row) :=
  if (t.returning e).length == 1 then .ok (t.update e) else .error .claimClosed

/-- The completeness written or replayed, and the committed reservations. -/
def finalize (t : Table Row) (c : Reservation) (inputTokens outputTokens : Int) :
    Except LedgerError (Completeness × Table Row) :=
  match loadClaimRow t c with
  | none => .error .claimClosed
  | some row =>
    let (amount, m) := settleAmount row inputTokens outputTokens
    match row.state with
    | .finalized _ _ => (replayFinalized row c amount m).map fun m => (m, t)
    | .claimed _ =>
      if row.version != c.version then .error .claimClosed
      else (write t (finalizeSql c amount m)).map fun t' => (m, t')
    | _ => .error .claimClosed

def release (t : Table Row) (c : Reservation) : Except LedgerError (Table Row) :=
  match loadClaimRow t c with
  | none => .error .claimClosed
  | some row =>
    match row.state with
    -- `_verify_release_replay`
    | .released => if row.version == c.version + 1 then .ok t else .error .claimClosed
    | .claimed _ =>
      if row.version != c.version then .error .claimClosed else write t (releaseSql c)
    | _ => .error .claimClosed

/-! ## The reaper -/

def validateSweep (graceSeconds batchLimit : Int) : Except LedgerError Unit :=
  if graceSeconds < 0 then .error (.ledger "invalid reaper grace")
  else if batchLimit ≤ 0 then .error (.ledger "invalid reaper batch limit")
  else .ok ()

/-- The `stale` rows of `_EXPIRE_STALE_SQL`: ids and versions, oldest lease first, cut at the limit. -/
def staleRows (t : Table Row) (now graceSeconds : Int) (batchLimit : Nat) : List (Uuid × Nat) :=
  (((t.rows.filter fun r => r.stale (now - graceSeconds * 1000000)).insertionSort
    fun r r' => r.lease ≤ r'.lease).take batchLimit).map fun r => (r.id, r.version)

/-- The `UPDATE` of `_EXPIRE_STALE_SQL`, which checks state, version and lease again. -/
def expireStaleEdit (now graceSeconds : Int) (batch : List (Uuid × Nat)) : Edit Row where
  cond r := batch.contains (r.id, r.version) && r.stale (now - graceSeconds * 1000000)
  set r := r.close .expired
  pk_set _ := rfl
  uk_set _ := rfl

end IbexHarness.Budget.Py
