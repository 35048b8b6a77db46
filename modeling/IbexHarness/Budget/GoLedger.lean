import IbexHarness.Budget.Schema

/-! `packages/budgetledger/ledger.go`, each transaction run alone. -/

namespace IbexHarness.Budget

open Lib

/-! ## Cents -/

/-- How a ledger computes with cents: the value a `SUM` scans to, and addition. -/
structure CentArith where
  scan : Nat → Option Int
  add : Int → Int → Int

namespace CentArith

def exact : CentArith where
  scan n := some n
  add a b := a + b

/-- Go's `int64`: scanning a larger `SUM` fails and addition wraps around. -/
def int64 : CentArith where
  scan n := if n < 2 ^ 63 then some n else none
  add a b := (a + b).bmod (2 ^ 64)

def exceeds (a : CentArith) (period : Period) (holds est : Int) : Bool :=
  decide ((period.capCents : Int) < a.add (a.add period.spentCentsCached holds) est)

end CentArith

namespace Go

inductive ClaimOutcome where
  | owned (r : Reservation)
  | inProgress (retryAfter : Int)
  | conflict
  | exceeded (remainingCents : Int)
  | noCap

def ClaimOutcome.token? : ClaimOutcome → Option Reservation
  | .owned r => some r
  | _ => none

inductive LedgerError where
  | invalidClaim
  /-- `ErrClaimClosed` with the state found, or without a row -/
  | claimClosed (state : Option RowState)
  /-- a failed statement with the context the code adds -/
  | database (context : String)

def defaultLease : Int := 15 * 60 * 1000000

structure PostgresLedger where
  lease : Int
  lease_pos : 0 < lease

def newPostgresLedger (lease : Int) : PostgresLedger :=
  if h : lease ≤ 0 then ⟨defaultLease, by decide⟩ else ⟨lease, by omega⟩

/-- What a claim transaction gets from outside: `NOW()`, the readings of `time.Now()` behind
`liveClaimLease` and `time.Until`, and the id `gen_random_uuid()` would produce. -/
structure ClaimEnv where
  now : Int
  appNow : Int
  retryNow : Int
  newId : Uuid
  newId_ne_nil : newId ≠ 0

def validClaimRequest (p : Principal) (req : ClaimRequest) : Bool :=
  p.orgId != 0 && p.agentId != 0 && !(Text.trimSpace req.key).isEmpty &&
    Text.byteLength req.key ≤ 256 && !(Text.trimSpace req.requestHash).isEmpty &&
    0 ≤ req.estimatedCents

def validReservation (c : Reservation) : Bool :=
  c.id != 0 && c.principal.orgId != 0 && c.principal.agentId != 0 &&
    !(Text.trimSpace c.key).isEmpty && !(Text.trimSpace c.requestHash).isEmpty

/-- The first lines of `Claim`: both texts are trimmed before anything else sees them. -/
def trimRequest (req : ClaimRequest) : ClaimRequest :=
  { req with key := Text.trimSpace req.key, requestHash := Text.trimSpace req.requestHash }

def liveClaimLease (appNow : Int) (row : Row) : Bool := row.live appNow

def activeHoldCents (a : CentArith) (t : Table Row) (org period : Uuid) (now : Int) (excludeId : Uuid) :
    Except LedgerError Int :=
  match a.scan (activeHolds t org period now (some excludeId)) with
  | some cents => .ok cents
  | none => .error (.database "budgetledger: sum active holds")

def ownedOutcome (p : Principal) (req : ClaimRequest) (periodId id : Uuid) (version : Nat) : ClaimOutcome :=
  .owned { id, principal := p, key := req.key, requestHash := req.requestHash, periodId, version }

def exceededOutcome (a : CentArith) (period : Period) (holds : Int) : ClaimOutcome :=
  .exceeded (max 0 (a.add (a.add period.capCents (-period.spentCentsCached)) (-holds)))

def expireStaleClaim (t : Table Row) (p : Principal) (key : Text) (row : Row) : Table Row :=
  if row.isClaimed then t.update (expireEdit row.id p key row.version) else t

def insertHeldRow (l : PostgresLedger) (t : Table Row) (env : ClaimEnv) (p : Principal) (req : ClaimRequest)
    (period : Period) : Except LedgerError (ClaimOutcome × Table Row) :=
  match insertReservation t env.newId env.newId_ne_nil p period.id req.key req.requestHash
      req.estimatedCents.toNat none env.now l.lease with
  | .violation => .error (.database "budgetledger: insert reservation")
  | .nothing => .ok (.inProgress 1000000, t)
  | .row r t' => .ok (ownedOutcome p req period.id r.id r.version, t')

def admitFresh (a : CentArith) (l : PostgresLedger) (t : Table Row) (env : ClaimEnv) (p : Principal)
    (req : ClaimRequest) (period : Period) (holds : Int) : Except LedgerError (ClaimOutcome × Table Row) :=
  if a.exceeds period holds req.estimatedCents then .ok (exceededOutcome a period holds, t)
  else insertHeldRow l t env p req period

def claimFresh (a : CentArith) (l : PostgresLedger) (t : Table Row) (env : ClaimEnv) (p : Principal)
    (req : ClaimRequest) (period : Period) : Except LedgerError (ClaimOutcome × Table Row) := do
  let holds ← activeHoldCents a t p.orgId period.id env.now 0
  admitFresh a l t env p req period holds

def resetHeldRow (l : PostgresLedger) (t : Table Row) (env : ClaimEnv) (p : Principal) (req : ClaimRequest)
    (period : Period) (row : Row) : Except LedgerError (ClaimOutcome × Table Row) :=
  let lease := env.now + l.lease
  let e := resetEdit period.id req.estimatedCents.toNat lease row.id p req.key row.version
  match t.returning e with
  | [] => .error (.database "budgetledger: reset reservation")
  | r :: _ =>
    if leaseCheck lease r.createdAt then .ok (ownedOutcome p req period.id r.id r.version, t.update e)
    else .error (.database "budgetledger: reset reservation")

def admitExisting (a : CentArith) (l : PostgresLedger) (t : Table Row) (env : ClaimEnv) (p : Principal)
    (req : ClaimRequest) (period : Period) (row : Row) (otherHolds : Int) :
    Except LedgerError (ClaimOutcome × Table Row) :=
  if a.exceeds period otherHolds req.estimatedCents then
    .ok (exceededOutcome a period otherHolds, expireStaleClaim t p req.key row)
  else resetHeldRow l t env p req period row

def resolveExisting (a : CentArith) (l : PostgresLedger) (t : Table Row) (env : ClaimEnv) (p : Principal)
    (req : ClaimRequest) (period : Period) (row : Row) : Except LedgerError (ClaimOutcome × Table Row) :=
  if row.requestHash != req.requestHash then .ok (.conflict, t)
  else if liveClaimLease env.appNow row then .ok (.inProgress (row.lease - env.retryNow), t)
  else do
    let otherHolds ← activeHoldCents a t p.orgId period.id env.now row.id
    admitExisting a l t env p req period row otherHolds

def claimInTx (a : CentArith) (l : PostgresLedger) (db : Db) (env : ClaimEnv) (p : Principal)
    (req : ClaimRequest) : Except LedgerError (ClaimOutcome × Table Row) :=
  match activePeriod db.periods p.orgId env.now with
  | none => .ok (.noCap, db.reservations)
  | some period =>
    match reservationOf db.reservations p req.key with
    | none => claimFresh a l db.reservations env p req period
    | some row => resolveExisting a l db.reservations env p req period row

def withOrgTx (t : Table Row) :
    Except LedgerError (ClaimOutcome × Table Row) → Except LedgerError ClaimOutcome × Table Row
  | .ok (out, t') => (.ok out, t')
  | .error e => (.error e, t)

def claim (a : CentArith) (l : PostgresLedger) (db : Db) (env : ClaimEnv) (p : Principal)
    (req : ClaimRequest) : Except LedgerError ClaimOutcome × Table Row :=
  let req := trimRequest req
  if validClaimRequest p req then withOrgTx db.reservations (claimInTx a l db env p req)
  else (.error .invalidClaim, db.reservations)

/-! ## Settlement -/

def settleEdit (c : Reservation) : Settlement → Edit Row
  | .finalize amount m => finalizeEdit c amount m
  | .release => releaseEdit c

/-- The `idempotent` argument of `settle`: `version == claim.Version+1` and the same settlement. -/
def idempotent (c : Reservation) (s : Settlement) (settled : Row) : Bool :=
  settled.version == c.version + 1 && settled.state == s.state

def loadReservationState (t : Table Row) (c : Reservation) : Option Row :=
  t.rows.find? (Row.isRow c.id c.principal c.key)

/-- The second half of `settle`: the `UPDATE` changed nothing, look at the row. -/
def settleRepeat (t : Table Row) (c : Reservation) (s : Settlement) : Except LedgerError Unit :=
  match loadReservationState t c with
  | none => .error (.claimClosed none)
  | some settled => if idempotent c s settled then .ok () else .error (.claimClosed (some settled.state))

def settle (t : Table Row) (c : Reservation) (s : Settlement) : Except LedgerError Unit × Table Row :=
  if (t.returning (settleEdit c s)).length == 1 then (.ok (), t.update (settleEdit c s))
  else (settleRepeat t c s, t)

/-- A completeness marker outside the two schema values is not representable. -/
def finalize (t : Table Row) (c : Reservation) (amountFinalCents : Int) (m : Completeness) :
    Except LedgerError Unit × Table Row :=
  if !validReservation c || amountFinalCents < 0 then (.error .invalidClaim, t)
  else settle t c (.finalize amountFinalCents.toNat m)

def release (t : Table Row) (c : Reservation) : Except LedgerError Unit × Table Row :=
  if !validReservation c then (.error .invalidClaim, t) else settle t c .release

end Go

end IbexHarness.Budget
