import IbexHarness.Lib.Machine
import IbexHarness.Lib.Table
import IbexHarness.Lib.Text

/-! `ibex_core.idempotency_ledger` and its two clients, `packages/idempotency/ledger.go` (Go) and
`ibex_idempotency/ledger.py` (Python). -/

namespace IbexHarness.Idempotency

open Lib

structure Principal where
  orgId : Uuid
  agentId : Uuid
deriving DecidableEq

inductive Side where
  | go
  | python

/-- The state column with the columns that go with it. The last two states are in the schema and
written by neither client. -/
inductive RowState where
  | claimed (leaseExpiresAt : Option Int)
  | finalized (statusCode : Int) (responsePayload : List UInt8)
  | reconciling
  | failedTerminal

structure Row where
  id : Uuid
  organizationId : Uuid
  agentId : Uuid
  dedupeKey : Text
  requestHash : Text
  state : RowState
  version : Nat
  version_pos : 0 < version

abbrev Slot := Uuid × Uuid × Text

def Row.slot (r : Row) : Slot := (r.organizationId, r.agentId, r.dedupeKey)

instance : Keyed Row Uuid Slot where
  pk := Row.id
  uk := Row.slot

structure ClaimToken where
  id : Uuid
  principal : Principal
  key : Text
  requestHash : Text
  version : Nat
deriving DecidableEq

def ClaimToken.slot (c : ClaimToken) : Slot := (c.principal.orgId, c.principal.agentId, c.key)

inductive ClaimOutcome where
  | owned (claim : ClaimToken)
  | replay (claim : ClaimToken) (status : Int) (response : List UInt8)
  | conflict (claim : ClaimToken)
  | inProgress (claim : ClaimToken) (retryAfter : Int)

inductive LedgerError where
  /-- `ErrInvalidLedgerClaim`; `LedgerError("invalid idempotency claim")` -/
  | invalid
  /-- a violated constraint; `LedgerError("idempotency ledger rejected claim")` -/
  | rejected
  /-- no row under the key any more: `sql.ErrNoRows`; `"idempotency ledger row disappeared"` -/
  | disappeared
  /-- `unsupported ledger state` -/
  | unsupported (state : RowState)
  /-- `ErrLedgerConflict`, `LedgerConflictError`: claim is no longer owned -/
  | notOwned

structure ClaimCall where
  side : Side
  principal : Principal
  key : Text
  requestHash : Text
  lease : Int

def ClaimCall.slot (c : ClaimCall) : Slot := (c.principal.orgId, c.principal.agentId, c.key)

/-! ## Requests -/

def validClaim (p : Principal) (key requestHash : Text) : Bool :=
  p.orgId != 0 && p.agentId != 0 && !(Text.trimSpace key).isEmpty && !(Text.trimSpace requestHash).isEmpty &&
    Text.byteLength key ≤ 256

def validateClaim (key requestHash : Text) : Bool := !key.isEmpty && key.length ≤ 256 && !requestHash.isEmpty

def ClaimCall.prepare (c : ClaimCall) : ClaimCall :=
  match c.side with
  | .go => { c with key := Text.trimSpace c.key, requestHash := Text.trimSpace c.requestHash }
  | .python => c

def ClaimCall.valid (c : ClaimCall) : Bool :=
  match c.side with
  | .go => validClaim c.principal c.key c.requestHash
  | .python => validateClaim c.key c.requestHash

/-- `withClaimTx` checks the token; Python's `_mutate_claim` does not. -/
def ClaimToken.valid (side : Side) (c : ClaimToken) : Bool :=
  match side with
  | .go => validClaim c.principal c.key c.requestHash && c.id != 0 && 0 < c.version
  | .python => true

/-! ## Statements -/

def rowCheck (key hash : Text) : Bool :=
  1 ≤ key.length && key.length ≤ 256 && hash.length == 64 &&
    hash.all fun c => ('0' ≤ c && c ≤ '9') || ('a' ≤ c && c ≤ 'f')

def freshRow (c : ClaimCall) (newId : Uuid) (now : Int) : Row where
  id := newId
  organizationId := c.principal.orgId
  agentId := c.principal.agentId
  dedupeKey := c.key
  requestHash := c.requestHash
  state := .claimed (some (now + c.lease))
  version := 1
  version_pos := Nat.one_pos

def Row.isToken (c : ClaimToken) (r : Row) : Bool :=
  r.id == c.id && r.slot == c.slot && r.requestHash == c.requestHash

def Row.isClaimed (r : Row) : Bool :=
  match r.state with
  | .claimed _ => true
  | _ => false

def Row.stale (now : Int) (r : Row) : Bool :=
  match r.state with
  | .claimed (some lease) => lease ≤ now
  | _ => false

def reclaimEdit (c : ClaimCall) (id : Uuid) (now : Int) : Edit Row where
  cond r := r.id == id && r.slot == c.slot && r.requestHash == c.requestHash && r.stale now
  set r := { r with
    state := .claimed (some (now + c.lease)), version := r.version + 1, version_pos := r.version.succ_pos }
  pk_set _ := rfl
  uk_set _ := rfl

def ownedBy (c : ClaimToken) (r : Row) : Bool := r.isToken c && r.version == c.version && r.isClaimed

def finalizeEdit (c : ClaimToken) (status : Int) (response : List UInt8) : Edit Row where
  cond r := ownedBy c r
  set r := { r with
    state := .finalized status response, version := r.version + 1, version_pos := r.version.succ_pos }
  pk_set _ := rfl
  uk_set _ := rfl

/-! ## Claim -/

def tokenOf (c : ClaimCall) (row : Row) : ClaimToken where
  id := row.id
  principal := c.principal
  key := c.key
  requestHash := row.requestHash
  version := row.version

/-- `time.Until(lease)` in Go; whole seconds, rounded up and at least one, in Python. -/
def retryAfter (side : Side) (lease now : Int) : Int :=
  match side with
  | .go => lease - now
  | .python => max 1 ((lease - now) / 1000000 + 1)

def retrySoon : Side → Int
  | .go => 1000000
  | .python => 1

def reclaim (t : Table Row) (c : ClaimCall) (row : Row) (now : Int) : ClaimOutcome × Table Row :=
  match t.returning (reclaimEdit c row.id now) with
  | [] => (.inProgress (tokenOf c row) (retrySoon c.side), t)
  | r :: _ => (.owned { tokenOf c row with version := r.version }, t.update (reclaimEdit c row.id now))

def resolveClaim (t : Table Row) (c : ClaimCall) (row : Row) (now appNow : Int) :
    Except LedgerError (ClaimOutcome × Table Row) :=
  if row.requestHash != c.requestHash then .ok (.conflict (tokenOf c row), t)
  else
    match row.state with
    | .finalized status response => .ok (.replay (tokenOf c row) status response, t)
    | .claimed (some lease) =>
      if appNow < lease then .ok (.inProgress (tokenOf c row) (retryAfter c.side lease appNow), t)
      else .ok (reclaim t c row now)
    | state => .error (.unsupported state)

/-! ## The machine

A claim is two steps: the `INSERT`, and on a conflict the `SELECT … FOR UPDATE` with what follows,
which the row lock makes one step. Other calls run between the two. -/

inductive Event where
  | answered (c : ClaimCall) (out : ClaimOutcome)
  | finalized (c : ClaimToken) (status : Int) (response : List UInt8)
  | released (c : ClaimToken)

def ownedTokens : List Event → List ClaimToken
  | [] => []
  | .answered _ (.owned tok) :: log => tok :: ownedTokens log
  | _ :: log => ownedTokens log

def stored : List Event → List (ClaimToken × Int × List UInt8)
  | [] => []
  | .finalized c status response :: log => (c, status, response) :: stored log
  | _ :: log => stored log

/-- A claim whose `INSERT` met another row; `now` is the `NOW()` of its transaction. -/
structure Waiting where
  call : ClaimCall
  now : Int

structure World where
  clock : Int
  table : Table Row
  waiting : List Waiting
  log : List Event

inductive Action where
  | tick (d : Nat)
  | insert (c : ClaimCall) (newId : Uuid) (now : Int)
  | resolve (i : Nat)
  /-- the transaction of a waiting claim is rolled back -/
  | abort (i : Nat)
  | finalize (side : Side) (c : ClaimToken) (status : Int) (response : Option (List UInt8))
  | release (side : Side) (c : ClaimToken)

namespace World

def record (w : World) (e : Event) : World := { w with log := e :: w.log }

/-- The first statement of a claim. `gen_random_uuid()` does not repeat an id. -/
def insert (w : World) (c : ClaimCall) (newId : Uuid) (now : Int) : Option World :=
  let c := c.prepare
  if c.valid && rowCheck c.key c.requestHash && newId ∉ (ownedTokens w.log).map ClaimToken.id && now ≤ w.clock then
    match w.table.insert? (freshRow c newId now) with
    | some t => some ({ w with table := t }.record (.answered c (.owned (tokenOf c (freshRow c newId now)))))
    | none => some { w with waiting := ⟨c, now⟩ :: w.waiting }
  else none

def resolve (w : World) (i : Nat) : Option World :=
  match w.waiting[i]? with
  | none => none
  | some wt =>
    let w' := { w with waiting := w.waiting.eraseIdx i }
    match w.table.find wt.call.slot with
    | none => some w'
    | some row =>
      match resolveClaim w.table wt.call row wt.now w.clock with
      | .error _ => some w'
      | .ok (out, t) => some ({ w' with table := t }.record (.answered wt.call out))

/-- It succeeds if exactly one row changed. A missing response breaks a constraint. -/
def finalize (w : World) (side : Side) (c : ClaimToken) (status : Int) (response : Option (List UInt8)) :
    Except LedgerError World :=
  if c.valid side then
    match response with
    | none => .error .rejected
    | some response =>
      if (w.table.returning (finalizeEdit c status response)).length == 1 then
        .ok ({ w with table := w.table.update (finalizeEdit c status response) }.record (.finalized c status response))
      else .error .notOwned
  else .error .invalid

def release (w : World) (side : Side) (c : ClaimToken) : Except LedgerError World :=
  if c.valid side then
    if (w.table.rows.filter (ownedBy c)).length == 1 then
      .ok ({ w with table := w.table.delete (ownedBy c) }.record (.released c))
    else .error .notOwned
  else .error .invalid

def step (w : World) : Action → Option World
  | .tick d => some { w with clock := w.clock + d }
  | .insert c newId now => w.insert c newId now
  | .resolve i => w.resolve i
  | .abort i => some { w with waiting := w.waiting.eraseIdx i }
  | .finalize side c status response => some ((w.finalize side c status response).toOption.getD w)
  | .release side c => some ((w.release side c).toOption.getD w)

end World

def machine : Machine World Action where
  init w := w.table = Table.empty ∧ w.waiting = [] ∧ w.log = []
  step := World.step

end IbexHarness.Idempotency
