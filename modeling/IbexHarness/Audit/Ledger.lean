import IbexHarness.Audit.Canonical
import IbexHarness.Lib.Machine

/-! `privacy_audit_append` of migration 000037, and `LoadEntries` of `packages/privacyaudit/ledger.go`. -/

namespace IbexHarness.Audit

open Lib

/-! ## JSON values in the database -/

/-- A `numeric` value as it is printed: no leading zeros, no exponent, no negative zero. -/
structure Numeric where
  negative : Bool
  whole : Nat
  frac : List (Fin 10)
  sign : negative = true → whole ≠ 0 ∨ ∃ d ∈ frac, d ≠ 0

def Numeric.text (n : Numeric) : Text :=
  (if n.negative then ['-'] else []) ++ Nat.toDigits 10 n.whole ++
    (if n.frac.isEmpty then [] else '.' :: n.frac.map fun d => Nat.digitChar d.val)

mutual

def OrderedMembers : Json → Prop
  | .arr elems => OrderedMembersElems elems
  | .obj fields => fields.Pairwise (fun a b => KeyLE a.1 b.1 ∧ a.1 ≠ b.1) ∧ OrderedMembersFields fields
  | .null | .bool _ | .num _ | .str _ => True

def OrderedMembersElems : List Json → Prop
  | [] => True
  | v :: vs => OrderedMembers v ∧ OrderedMembersElems vs

def OrderedMembersFields : List (Text × Json) → Prop
  | [] => True
  | (_, v) :: fs => OrderedMembers v ∧ OrderedMembersFields fs

end

structure Jsonb where
  value : Json
  numbers : value.Numbers fun lit => ∃ n : Numeric, n.text = lit
  members : OrderedMembers value

def Jsonb.text (v : Jsonb) : Text := v.value.render

def Jsonb.emptyObject : Jsonb := ⟨.obj [], trivial, .nil, trivial⟩

/-! ## The table -/

/-- A row of `privacy_audit_ledger`; `createdAt` is in microseconds. -/
structure Row where
  orgId : UuidBytes
  seq : Nat
  prevHash : Text
  rowHash : Text
  actorUserId : Option UuidBytes
  action : Text
  purpose : Option Text
  policyResult : Option Text
  objectType : Option Text
  objectId : Option Text
  fields : List Text
  approvalRef : Option Text
  beforeHash : Option Text
  afterHash : Option Text
  correlationId : Option Text
  requestId : Option Text
  payload : Jsonb
  createdAt : Nat

def atMost (limit : Nat) (column : Option Text) : Bool := column.all fun s => s.length ≤ limit

def Row.checks (r : Row) : Bool :=
  1 ≤ r.action.length && r.action.length ≤ 128 && atMost 512 r.purpose && atMost 128 r.policyResult &&
    atMost 128 r.objectType && atMost 256 r.objectId && atMost 256 r.approvalRef &&
    atMost 128 r.correlationId && atMost 128 r.requestId

def latest : List Row → Option Row
  | [] => none
  | r :: rs =>
    match latest rs with
    | none => some r
    | some last => if last.seq < r.seq then some r else some last

/-! ## `privacy_audit_append` -/

structure Arguments where
  orgId : Option UuidBytes
  actorUserId : Option UuidBytes
  action : Option Text
  purpose : Option Text
  policyResult : Option Text
  objectType : Option Text
  objectId : Option Text
  fields : Option (List Text)
  approvalRef : Option Text
  beforeHash : Option Text
  afterHash : Option Text
  correlationId : Option Text
  requestId : Option Text
  payload : Option Jsonb

inductive AppendError where
  | orgRequired
  | orgMismatch
  | actionInvalid

/-- An accepted call: its organization, its action and the time it began. -/
structure Call where
  org : UuidBytes
  action : Text
  args : Arguments
  created : Nat

def checkArguments (currentOrgId : Option UuidBytes) (args : Arguments) (now : Nat) : Except AppendError Call :=
  match args.orgId with
  | none => .error .orgRequired
  | some org =>
    if currentOrgId ≠ some org then .error .orgMismatch
    else
      match args.action with
      | none => .error .actionInvalid
      | some action =>
        if action.length < 1 ∨ 128 < action.length then .error .actionInvalid
        else .ok ⟨org, action, args, now⟩

def fieldsSorted : Option (List Text) → List Text
  | none => []
  | some fields => fields.insertionSort BytesLE

/-- `to_char` with `YYYY`: years before the common era are counted from 1 again. -/
def toCharYear (year : Int) : Text := Digits.padded 4 (if year ≤ 0 then 1 - year else year).toNat

def toChar (created : Nat) : Text := Calendar.instantText toCharYear created

def Call.canonical (c : Call) (seq : Nat) (prev : Text) : Text :=
  let text (column : Option Text) : Json := .str (column.getD [])
  Json.render (.arr [.str (uuidString c.org), .num (Nat.toDigits 10 seq), .str prev,
    .str ((c.args.actorUserId.map uuidString).getD []), .str c.action, text c.args.purpose,
    text c.args.policyResult, text c.args.objectType, text c.args.objectId,
    .arr ((fieldsSorted c.args.fields).map .str), text c.args.approvalRef, text c.args.beforeHash,
    text c.args.afterHash, text c.args.correlationId, text c.args.requestId,
    (c.args.payload.getD .emptyObject).value, .str (toChar c.created)])

section Hash

variable (sha256Hex : Text → Text)

def Call.row (c : Call) (last : Option Row) : Row :=
  let seq := match last with
    | none => 1
    | some l => l.seq + 1
  let prev := match last with
    | none => genesisPrevHash
    | some l => l.rowHash
  { orgId := c.org
    seq := seq
    prevHash := prev
    rowHash := sha256Hex (c.canonical seq prev)
    actorUserId := c.args.actorUserId
    action := c.action
    purpose := c.args.purpose
    policyResult := c.args.policyResult
    objectType := c.args.objectType
    objectId := c.args.objectId
    fields := fieldsSorted c.args.fields
    approvalRef := c.args.approvalRef
    beforeHash := c.args.beforeHash
    afterHash := c.args.afterHash
    correlationId := c.args.correlationId
    requestId := c.args.requestId
    payload := c.args.payload.getD .emptyObject
    createdAt := c.created }

/-! ## Transactions -/

/-- Where a transaction is in a call: before the lock, before the `SELECT`, before the `INSERT`. -/
inductive Phase where
  | idle
  | locking (c : Call)
  | selecting (c : Call)
  | inserting (c : Call) (last : Option Row)

/-- The committed rows, those of open transactions, the advisory locks by key, the running calls. -/
structure World where
  committed : List Row
  pending : List (Nat × Row)
  locks : Int → Option Nat
  phase : Nat → Phase

def World.rowsOf (w : World) (t : Nat) : List Row := (w.pending.filter fun p => p.1 = t).map Prod.snd

def World.visible (w : World) (t : Nat) (org : UuidBytes) : List Row :=
  (w.committed ++ w.rowsOf t).filter fun r => r.orgId = org

def World.setPhase (w : World) (t : Nat) (p : Phase) : World :=
  { w with phase := fun u => if u = t then p else w.phase u }

def World.setLock (w : World) (key : Int) (t : Nat) : World :=
  { w with locks := fun k => if k = key then some t else w.locks k }

def World.addRow (w : World) (t : Nat) (r : Row) : World := { w with pending := w.pending ++ [(t, r)] }

def World.publish (w : World) (t : Nat) : World := { w with committed := w.committed ++ w.rowsOf t }

/-- The end of a transaction: its rows are no longer pending and its locks are free. -/
def World.finish (w : World) (t : Nat) : World :=
  { w with
    pending := w.pending.filter fun p => p.1 ≠ t
    locks := fun k => if w.locks k = some t then none else w.locks k
    phase := fun u => if u = t then .idle else w.phase u }

inductive Action where
  | call (t : Nat) (currentOrgId : Option UuidBytes) (args : Arguments) (now : Nat)
  | lock (t : Nat)
  | select (t : Nat)
  | insert (t : Nat)
  | commit (t : Nat)
  | rollback (t : Nat)

variable (hashtext : Text → Int)

def step (w : World) : Action → Option World
  | .call t currentOrgId args now =>
    match w.phase t with
    | .idle =>
      match checkArguments currentOrgId args now with
      | .error _ => some (w.finish t)
      | .ok c => some (w.setPhase t (.locking c))
    | _ => none
  | .lock t =>
    match w.phase t with
    | .locking c =>
      let key := hashtext (uuidString c.org)
      -- the lock is held to the end of the transaction and may be taken again by its holder
      if w.locks key = none ∨ w.locks key = some t then
        some ((w.setLock key t).setPhase t (.selecting c))
      else none
    | _ => none
  | .select t =>
    match w.phase t with
    | .selecting c => some (w.setPhase t (.inserting c (latest (w.visible t c.org))))
    | _ => none
  | .insert t =>
    match w.phase t with
    | .inserting c last =>
      let row := c.row sha256Hex last
      let same (r : Row) : Bool := r.orgId = row.orgId && r.seq = row.seq
      -- the unique index: a conflict with an open transaction waits for its end
      if w.pending.any fun p => p.1 ≠ t && same p.2 then none
      else if !row.checks || w.committed.any same || (w.rowsOf t).any same then some (w.finish t)
      else some ((w.addRow t row).setPhase t .idle)
    | _ => none
  | .commit t =>
    match w.phase t with
    | .idle => some ((w.publish t).finish t)
    | _ => none
  | .rollback t => some (w.finish t)

def machine : Machine World Action where
  init w := w = ⟨[], [], fun _ => none, fun _ => .idle⟩
  step := step sha256Hex hashtext

end Hash

/-! ## Loading -/

def scanEntry (r : Row) : Entry where
  orgId := r.orgId
  seq := r.seq
  prevHash := r.prevHash
  actorUserId := r.actorUserId
  action := r.action
  purpose := r.purpose.getD []
  policyResult := r.policyResult.getD []
  objectType := r.objectType.getD []
  objectId := r.objectId.getD []
  fields := r.fields
  approvalRef := r.approvalRef.getD []
  beforeHash := r.beforeHash.getD []
  afterHash := r.afterHash.getD []
  correlationId := r.correlationId.getD []
  requestId := r.requestId.getD []
  payload := r.payload.text
  createdAt := r.createdAt * 1000
  rowHash := r.rowHash

def loadEntries (w : World) (org : UuidBytes) : List Entry :=
  ((w.committed.filter fun r => r.orgId = org).insertionSort fun a b => a.seq ≤ b.seq).map scanEntry

end IbexHarness.Audit
