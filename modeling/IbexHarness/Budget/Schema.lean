import IbexHarness.Lib.Table
import IbexHarness.Lib.Text

/-! `budget_reservations`, `budget_periods` and the SQL that the Go and the Python ledger run on them. -/

namespace IbexHarness.Budget

open Lib

structure Principal where
  orgId : Uuid
  agentId : Uuid
deriving DecidableEq

inductive Completeness where
  | complete
  | estimated
deriving DecidableEq

/-- The state column together with the columns its `CHECK` constraints tie to it: a lease exactly in
`claimed`, an amount and a completeness marker exactly in `finalized`. -/
inductive RowState where
  | claimed (leaseExpiresAt : Int)
  | finalized (amountFinalCents : Nat) (finalizedCompleteness : Completeness)
  | released
  | expired
deriving DecidableEq

/-- A row of `budget_reservations`; `gen_random_uuid()` never returns the nil UUID. -/
structure Row where
  id : Uuid
  id_ne_nil : id ≠ 0
  organizationId : Uuid
  agentId : Uuid
  budgetPeriodId : Uuid
  reservationKey : Text
  requestHash : Text
  state : RowState
  amountEstimatedCents : Nat
  priceInputCentsPer1k : Option Nat
  priceOutputCentsPer1k : Option Nat
  version : Nat
  version_pos : 0 < version
  createdAt : Int
deriving DecidableEq

/-- `PRIMARY KEY (id)` and `UNIQUE (organization_id, agent_id, reservation_key)`. -/
instance : Keyed Row Uuid (Uuid × Uuid × Text) where
  pk r := r.id
  uk r := (r.organizationId, r.agentId, r.reservationKey)

inductive EnforcementMode where
  | alertOnly
  | hardCap
deriving DecidableEq

structure Period where
  id : Uuid
  orgId : Uuid
  periodStart : Int
  periodEnd : Int
  capCents : Nat
  spentCentsCached : Nat
  enforcementMode : EnforcementMode
deriving DecidableEq

instance : Keyed Period Uuid Uuid where
  pk p := p.id
  uk p := p.id

structure Db where
  reservations : Table Row
  periods : Table Period

/-- One admission attempt; the estimate is an `int64` in Go and an `int` in Python. -/
structure ClaimRequest where
  key : Text
  requestHash : Text
  estimatedCents : Int

/-- The token of an owned hold: Go's `Reservation`, Python's `BudgetClaim`. -/
structure Reservation where
  id : Uuid
  principal : Principal
  key : Text
  requestHash : Text
  periodId : Uuid
  version : Nat
deriving DecidableEq

inductive Settlement where
  | finalize (amountFinalCents : Nat) (completeness : Completeness)
  | release

def Settlement.state : Settlement → RowState
  | .finalize amount m => .finalized amount m
  | .release => .released

/-! ## Row predicates -/

namespace Row

def isClaimed (r : Row) : Bool :=
  match r.state with
  | .claimed _ => true
  | _ => false

def lease (r : Row) : Int :=
  match r.state with
  | .claimed lease => lease
  | _ => 0

def live (now : Int) (r : Row) : Bool :=
  match r.state with
  | .claimed lease => now < lease
  | _ => false

def stale (now : Int) (r : Row) : Bool :=
  match r.state with
  | .claimed lease => lease ≤ now
  | _ => false

def inPeriod (org period : Uuid) (r : Row) : Bool := r.organizationId == org && r.budgetPeriodId == period

def isRow (id : Uuid) (p : Principal) (key : Text) (r : Row) : Bool :=
  r.id == id && r.organizationId == p.orgId && r.agentId == p.agentId && r.reservationKey == key

end Row

/-! ## Queries -/

namespace Period

def active (org : Uuid) (now : Int) (p : Period) : Bool :=
  p.orgId == org && p.periodStart ≤ now && now < p.periodEnd && p.enforcementMode == .hardCap

end Period

def latestStart : List Period → Option Period
  | [] => none
  | p :: ps =>
    match latestStart ps with
    | none => some p
    | some q => if q.periodStart ≤ p.periodStart then some p else some q

def activePeriod (periods : Table Period) (org : Uuid) (now : Int) : Option Period :=
  latestStart (periods.rows.filter (Period.active org now))

def reservationOf (t : Table Row) (p : Principal) (key : Text) : Option Row :=
  t.find (p.orgId, p.agentId, key)

def holdCents (org period : Uuid) (now : Int) (r : Row) : Nat :=
  if r.inPeriod org period && r.live now then r.amountEstimatedCents else 0

def liveHolds (t : Table Row) (org period : Uuid) (now : Int) : Nat :=
  t.sumBy (holdCents org period now)

/-- `activeHoldCentsSQL`, `_ACTIVE_HOLDS_SQL`: the live holds of a period but for one row. -/
def activeHolds (t : Table Row) (org period : Uuid) (now : Int) (excludeId : Option Uuid) : Nat :=
  t.sumBy fun r => if some r.id = excludeId then 0 else holdCents org period now r

/-! ## Constraints -/

def hashCheck (h : Text) : Bool :=
  h.length == 64 && h.all fun c => ('0' ≤ c && c ≤ '9') || ('a' ≤ c && c ≤ 'f')

def keyCheck (k : Text) : Bool := 1 ≤ k.length && k.length ≤ 256

/-- `lease_expires_at > created_at`, the constraint a renewed lease can break. -/
def leaseCheck (lease createdAt : Int) : Bool := createdAt < lease

/-! ## Insert -/

inductive Inserted where
  | violation
  | nothing
  | row (r : Row) (t : Table Row)

/-- `insertReservationSQL`, `_INSERT_SQL`; the Go statement leaves both prices `NULL`. -/
def insertReservation (t : Table Row) (newId : Uuid) (hid : newId ≠ 0) (p : Principal) (periodId : Uuid)
    (key hash : Text) (est : Nat) (prices : Option (Nat × Nat)) (now lease : Int) : Inserted :=
  let r : Row :=
    { id := newId, id_ne_nil := hid, organizationId := p.orgId, agentId := p.agentId,
      budgetPeriodId := periodId, reservationKey := key, requestHash := hash,
      state := .claimed (now + lease), amountEstimatedCents := est,
      priceInputCentsPer1k := prices.map (·.1), priceOutputCentsPer1k := prices.map (·.2),
      version := 1, version_pos := Nat.one_pos, createdAt := now }
  if keyCheck key && hashCheck hash && leaseCheck (now + lease) now && (t.get newId).isNone then
    match t.insert? r with
    | none => .nothing
    | some t' => .row r t'
  else .violation

/-! ## Updates

Every statement bumps the version; each carries the `WHERE` of its source. -/

def resetEdit (periodId : Uuid) (est : Nat) (lease : Int) (id : Uuid) (p : Principal) (key : Text)
    (version : Nat) : Edit Row where
  cond r := r.isRow id p key && r.version == version
  set r := { r with
    state := .claimed lease, budgetPeriodId := periodId, amountEstimatedCents := est,
    version := r.version + 1, version_pos := r.version.succ_pos }
  pk_set _ := rfl
  uk_set _ := rfl

/-- `_RESET_SQL` (Python): also rewrites the hash and the prices, and asks again that the row is not
a live claim. -/
def resetSql (periodId : Uuid) (hash : Text) (est : Nat) (priceIn priceOut : Nat) (now lease : Int)
    (id : Uuid) (p : Principal) (key : Text) (version : Nat) : Edit Row where
  cond r := r.isRow id p key && r.version == version && !r.live now
  set r := { r with
    state := .claimed lease, budgetPeriodId := periodId, requestHash := hash,
    amountEstimatedCents := est, priceInputCentsPer1k := some priceIn,
    priceOutputCentsPer1k := some priceOut, version := r.version + 1,
    version_pos := r.version.succ_pos }
  pk_set _ := rfl
  uk_set _ := rfl

def Row.close (r : Row) (state : RowState) : Row :=
  { r with state := state, version := r.version + 1, version_pos := r.version.succ_pos }

/-- The terminal transitions share one shape: a claimed row at one version moves to `state`. -/
def closeEdit (state : RowState) (where_ : Row → Bool) (version : Nat) : Edit Row where
  cond r := where_ r && r.version == version && r.isClaimed
  set r := r.close state
  pk_set _ := rfl
  uk_set _ := rfl

def expireEdit (id : Uuid) (p : Principal) (key : Text) (version : Nat) : Edit Row :=
  closeEdit .expired (Row.isRow id p key) version

def finalizeEdit (c : Reservation) (amount : Nat) (m : Completeness) : Edit Row :=
  closeEdit (.finalized amount m) (Row.isRow c.id c.principal c.key) c.version

def releaseEdit (c : Reservation) : Edit Row :=
  closeEdit .released (Row.isRow c.id c.principal c.key) c.version

def finalizeSql (c : Reservation) (amount : Nat) (m : Completeness) : Edit Row :=
  closeEdit (.finalized amount m)
    (fun r => r.isRow c.id c.principal c.key && r.requestHash == c.requestHash) c.version

def releaseSql (c : Reservation) : Edit Row :=
  closeEdit .released
    (fun r => r.isRow c.id c.principal c.key && r.requestHash == c.requestHash) c.version

end IbexHarness.Budget
