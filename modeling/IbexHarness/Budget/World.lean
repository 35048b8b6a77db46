import IbexHarness.Lib.Machine
import IbexHarness.Budget.GoLedger
import IbexHarness.Budget.PyLedger

/-! A claim transaction runs statement by statement under the advisory lock of its organization. -/

namespace IbexHarness.Budget

open Lib

inductive Call where
  | go (l : Go.PostgresLedger) (principal : Principal) (req : ClaimRequest)
  | python (l : Py.Ledger) (req : Py.BudgetClaimRequest) (price : Option Py.Price)

namespace Call

def principal : Call → Principal
  | .go _ p _ => p
  | .python _ req _ => req.principal

def key : Call → Text
  | .go _ _ req => req.key
  | .python _ req _ => req.key

def prepare : Call → Call
  | .go l p req => .go l p (Go.trimRequest req)
  | .python l req price => .python l req price

def valid : Call → Bool
  | .go _ p req => Go.validClaimRequest p req
  | .python _ req _ =>
    match Py.validateClaim req with
    | .ok () => true
    | .error _ => false

end Call

inductive Phase where
  | locked
  | period (period : Period)
  | loaded (period : Period) (row : Option Row)
  | summed (period : Period) (row : Option Row) (holds : Int)

/-- A claim transaction that holds the advisory lock of `org`; `now` is its `NOW()`. -/
structure ClaimTx (org : Uuid) where
  call : Call
  now : Int
  phase : Phase
  call_org : call.principal.orgId = org
  call_valid : call.valid = true

def ClaimTx.row? {org : Uuid} (tx : ClaimTx org) : Option Row :=
  match tx.phase with
  | .loaded _ row => row
  | .summed _ row _ => row
  | _ => none

structure Sweep where
  now : Int
  graceSeconds : Int
  batch : List (Uuid × Nat)

structure Rollup where
  periodId : Uuid
  orgId : Uuid
  spent : Nat

inductive Event where
  /-- an owned outcome, with the spent value its transaction had read -/
  | owned (r : Reservation) (spentRead : Nat)
  /-- a settlement changed this row; on time if the lease had not expired -/
  | settled (c : Reservation) (s : Settlement) (hold : Row) (onTime : Bool)
  /-- a settlement reported success without changing the row -/
  | replayed (c : Reservation) (s : Settlement)

structure World where
  clock : Int
  db : Db
  claims : (org : Uuid) → Option (ClaimTx org)
  /-- Go settlements whose `UPDATE` changed no row and that have yet to look at it -/
  repeats : List (Reservation × Settlement)
  sweeps : List Sweep
  rollups : List Rollup
  log : List Event

/-- The finalized amounts of a period so far, also those of rows claimed again since. -/
def finalizedCents (periodId : Uuid) : List Event → Nat
  | [] => 0
  | .settled _ (.finalize amount _) hold _ :: log =>
    (if hold.budgetPeriodId = periodId then amount else 0) + finalizedCents periodId log
  | _ :: log => finalizedCents periodId log

def ownedTokens : List Event → List (Uuid × Nat)
  | [] => []
  | .owned r _ :: log => (r.id, r.version) :: ownedTokens log
  | _ :: log => ownedTokens log

/-- The settlements that changed a row, with the `(id, version)` pair of the token that made them. -/
def settlements : List Event → List ((Uuid × Nat) × Settlement)
  | [] => []
  | .settled c s _ _ :: log => ((c.id, c.version), s) :: settlements log
  | _ :: log => settlements log

def withinEstimate : List Event → Bool
  | [] => true
  | .settled _ (.finalize amount _) hold _ :: log =>
    decide (amount ≤ hold.amountEstimatedCents) && withinEstimate log
  | _ :: log => withinEstimate log

/-- What the money committed in a period may exceed its cap by: the finalized cents that were missing
from the spent value read by the last granted claim, and the cents finalized since then whose lease
had run out. -/
def overshoot (periodId : Uuid) : List Event → Nat
  | [] => 0
  | .owned r spentRead :: log =>
    if r.periodId = periodId then finalizedCents periodId log - spentRead else overshoot periodId log
  | .settled _ (.finalize amount _) hold onTime :: log =>
    (if hold.budgetPeriodId = periodId ∧ onTime = false then amount else 0) + overshoot periodId log
  | _ :: log => overshoot periodId log

namespace World

def rowLocked (w : World) (r : Row) : Bool :=
  match w.claims r.organizationId with
  | some tx => tx.row?.any fun row => row.id == r.id
  | none => false

def free (w : World) (e : Edit Row) : Bool :=
  w.db.reservations.rows.all fun r => !e.cond r || !w.rowLocked r

def setReservations (w : World) (t : Table Row) : World := { w with db := { w.db with reservations := t } }

def setClaim (w : World) (org : Uuid) (tx : Option (ClaimTx org)) : World :=
  { w with claims := Function.update w.claims org tx }

variable {org : Uuid}

def setPhase (w : World) (tx : ClaimTx org) (phase : Phase) : World :=
  w.setClaim org (some { tx with phase })

def endClaim (w : World) (org : Uuid) : World := w.setClaim org none

def record (w : World) (es : List Event) : World := { w with log := es ++ w.log }

/-! ## Claims -/

def lock (w : World) (call : Call) (now : Int) : Option World :=
  let call := call.prepare
  if h : call.valid = true then
    match w.claims call.principal.orgId with
    | some _ => none
    | none =>
      if now ≤ w.clock then some (w.setClaim call.principal.orgId (some ⟨call, now, .locked, rfl, h⟩))
      else none
  else none

/-- Python builds its admission between the period and the row; without a price it gives up. -/
def priced (call : Call) (period : Period) : Bool :=
  match call with
  | .go .. => true
  | .python _ req price =>
    match Py.buildAdmission price req period with
    | .ok _ => true
    | .error _ => false

def loadPeriod (w : World) (tx : ClaimTx org) : Option World :=
  match tx.phase with
  | .locked =>
    match activePeriod w.db.periods org tx.now with
    | none => some (w.endClaim org)
    | some period => some (if priced tx.call period then w.setPhase tx (.period period) else w.endClaim org)
  | _ => none

def loadRow (w : World) (tx : ClaimTx org) : Option World :=
  match tx.phase with
  | .period period =>
    some (w.setPhase tx (.loaded period (reservationOf w.db.reservations tx.call.principal tx.call.key)))
  | _ => none

/-- The checks on the loaded row that end a claim before the holds are summed. -/
def reusable (w : World) (tx : ClaimTx org) (row : Row) : Bool :=
  match tx.call with
  | .go _ _ req => row.requestHash == req.requestHash && !Go.liveClaimLease w.clock row
  | .python _ req _ =>
    match Py.ensureReusable tx.now row req.requestHash with
    | .ok () => true
    | .error _ => false

def holds (a : CentArith) (w : World) (tx : ClaimTx org) (period : Period) (row : Option Row) : Option Int :=
  match tx.call with
  | .go .. => (Go.activeHoldCents a w.db.reservations org period.id tx.now (row.elim 0 Row.id)).toOption
  | .python .. => some (activeHolds w.db.reservations org period.id tx.now (row.map Row.id))

def sumHolds (a : CentArith) (w : World) (tx : ClaimTx org) : Option World :=
  match tx.phase with
  | .loaded period row =>
    if row.all (w.reusable tx) then
      match w.holds a tx period row with
      | some h => some (w.setPhase tx (.summed period row h))
      | none => some (w.endClaim org)
    else some (w.endClaim org)
  | _ => none

/-- The end of a claim: the token it owns, if any, and the committed table; `none` is a rollback. -/
def writeRow (a : CentArith) (w : World) (tx : ClaimTx org) (newId : Uuid) (hid : newId ≠ 0) (period : Period)
    (row : Option Row) (h : Int) : Option (Option Reservation × Table Row) :=
  let t := w.db.reservations
  match tx.call with
  | .go l p req =>
    let env : Go.ClaimEnv := ⟨tx.now, w.clock, w.clock, newId, hid⟩
    let res := match row with
      | none => Go.admitFresh a l t env p req period h
      | some row => Go.admitExisting a l t env p req period row h
    res.toOption.map fun (out, t') => (out.token?, t')
  | .python l req price =>
    let env : Py.ClaimEnv := ⟨tx.now, newId, hid, price⟩
    match Py.buildAdmission price req period with
    | .error _ => none
    | .ok ad =>
      match row with
      | none => (Py.admitFresh l t env ad h.toNat).toOption.map fun (r, t') => (some r, t')
      | some row => (Py.admitExisting l t env ad row h.toNat).toOption.map fun (r, t') => (some r, t')

def write (a : CentArith) (w : World) (tx : ClaimTx org) (newId : Uuid) : Option World :=
  match tx.phase with
  | .summed period row h =>
    if hid : newId = 0 then none
    else
      match w.writeRow a tx newId hid period row h with
      | none => some (w.endClaim org)
      | some (tok, t') =>
        some (((w.setReservations t').endClaim org).record
          (tok.map fun r => Event.owned r period.spentCentsCached).toList)
  | _ => none

/-! ## Settlements -/

/-- Change the row of a token by one of its settlement statements, when exactly one row matches. -/
def settleRow (w : World) (c : Reservation) (s : Settlement) (e : Edit Row) : Option World :=
  match w.db.reservations.rows.filter e.cond with
  | [r] =>
    some ((w.setReservations (w.db.reservations.update e)).record
      [.settled c s r (r.live w.clock)])
  | _ => none

def settleGo (w : World) (c : Reservation) (s : Settlement) : Option World :=
  if Go.validReservation c && w.free (Go.settleEdit c s) then
    match w.settleRow c s (Go.settleEdit c s) with
    | some w' => some w'
    | none => some { w with repeats := (c, s) :: w.repeats }
  else none

def settleLook (w : World) (i : Nat) : Option World :=
  match w.repeats[i]? with
  | none => none
  | some (c, s) =>
    let w' := { w with repeats := w.repeats.eraseIdx i }
    match Go.settleRepeat w.db.reservations c s with
    | .ok () => some (w'.record [.replayed c s])
    | .error _ => some w'

/-- A Python settlement: it locks the row first, so its reads and its write are one step. `s` is the
settlement it makes of the row it finds, `res` the table it commits. -/
def settlePython (w : World) (c : Reservation) (s : Row → Settlement)
    (res : Except Py.LedgerError (Table Row)) : Option World :=
  match Py.loadClaimRow w.db.reservations c with
  | none => some w
  | some row =>
    if w.rowLocked row then none
    else
      match res with
      | .error _ => some w
      | .ok t =>
        some ((w.setReservations t).record
          [if row.isClaimed then .settled c (s row) row (row.live w.clock)
          else .replayed c (s row)])

def finalizePython (w : World) (c : Reservation) (inputTokens outputTokens : Int) : Option World :=
  w.settlePython c
    (fun row => .finalize (Py.settleAmount row inputTokens outputTokens).1
      (Py.settleAmount row inputTokens outputTokens).2)
    ((Py.finalize w.db.reservations c inputTokens outputTokens).map Prod.snd)

def releasePython (w : World) (c : Reservation) : Option World :=
  w.settlePython c (fun _ => .release) (Py.release w.db.reservations c)

/-! ## The reaper and the rollup -/

def sweepRead (w : World) (now graceSeconds batchLimit : Int) : Option World :=
  match Py.validateSweep graceSeconds batchLimit with
  | .error _ => none
  | .ok () =>
    if now ≤ w.clock then
      some { w with sweeps :=
        ⟨now, graceSeconds, Py.staleRows w.db.reservations now graceSeconds batchLimit.toNat⟩ :: w.sweeps }
    else none

def sweepWrite (w : World) (i : Nat) : Option World :=
  match w.sweeps[i]? with
  | none => none
  | some sw =>
    let e := Py.expireStaleEdit sw.now sw.graceSeconds sw.batch
    if w.free e then
      some { w.setReservations (w.db.reservations.update e) with sweeps := w.sweeps.eraseIdx i }
    else none

/-- `list_active_periods` and `sum_spent`: the usage facts of a period are its finalized amounts. -/
def rollupRead (w : World) (periodId : Uuid) (now : Int) : Option World :=
  match w.db.periods.get periodId with
  | none => none
  | some p =>
    if now ≤ w.clock ∧ p.periodStart ≤ now ∧ now < p.periodEnd then
      some { w with rollups := ⟨p.id, p.orgId, finalizedCents p.id w.log⟩ :: w.rollups }
    else none

def spentEdit (ru : Rollup) : Edit Period where
  cond p := p.id == ru.periodId && p.orgId == ru.orgId
  set p := { p with spentCentsCached := ru.spent }
  pk_set _ := rfl
  uk_set _ := rfl

def rollupWrite (w : World) (i : Nat) : Option World :=
  match w.rollups[i]? with
  | none => none
  | some ru =>
    some { w with db := { w.db with periods := w.db.periods.update (spentEdit ru) }, rollups := w.rollups.eraseIdx i }

end World

/-! ## The machine -/

inductive Action where
  | tick (d : Nat)
  | lock (call : Call) (now : Int)
  | loadPeriod (org : Uuid)
  | loadRow (org : Uuid)
  | sumHolds (org : Uuid)
  | write (org newId : Uuid)
  /-- a transaction fails or is cancelled: the database rolls it back -/
  | abort (org : Uuid)
  | settleGo (c : Reservation) (s : Settlement)
  | settleLook (i : Nat)
  | finalizePython (c : Reservation) (inputTokens outputTokens : Int)
  | releasePython (c : Reservation)
  | sweepRead (now graceSeconds batchLimit : Int)
  | sweepWrite (i : Nat)
  | rollupRead (periodId : Uuid) (now : Int)
  | rollupWrite (i : Nat)

def Action.token? (w : World) : Action → Option Reservation
  | .settleGo c _ => some c
  | .settleLook i => (w.repeats[i]?).map Prod.fst
  | .finalizePython c _ _ => some c
  | .releasePython c => some c
  | _ => none

namespace World

def step (a : CentArith) (w : World) : Action → Option World
  | .tick d => some { w with clock := w.clock + d }
  | .lock call now => w.lock call now
  | .loadPeriod org => (w.claims org).bind w.loadPeriod
  | .loadRow org => (w.claims org).bind w.loadRow
  | .sumHolds org => (w.claims org).bind (w.sumHolds a)
  | .write org newId => (w.claims org).bind fun tx => w.write a tx newId
  | .abort org => (w.claims org).map fun _ => w.endClaim org
  | .settleGo c s => w.settleGo c s
  | .settleLook i => w.settleLook i
  | .finalizePython c i o => w.finalizePython c i o
  | .releasePython c => w.releasePython c
  | .sweepRead now grace limit => w.sweepRead now grace limit
  | .sweepWrite i => w.sweepWrite i
  | .rollupRead id now => w.rollupRead id now
  | .rollupWrite i => w.rollupWrite i

def Quiet (w : World) : Prop :=
  (∀ org, w.claims org = none) ∧ w.repeats = [] ∧ w.sweeps = [] ∧ w.rollups = []

def Fresh (w : World) : Prop := w.Quiet ∧ w.db.reservations = Table.empty ∧ w.log = []

end World

def machine (a : CentArith) : Machine World Action where
  init := World.Fresh
  step := World.step a

end IbexHarness.Budget
