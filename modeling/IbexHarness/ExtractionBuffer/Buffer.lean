import IbexHarness.Extraction.Batch
import IbexHarness.Lib.JsonWriters

/-! `services/proxy/internal/extractionbuffer/buffer.go`: the turns of one sticky session as a JSON text under one
Redis key. -/

namespace IbexHarness.ExtractionBuffer

open Lib

section

/-! ## Turns -/

structure Turn where
  turnIndex : Int
  role : Text
  content : Text
deriving DecidableEq

def maxTurnsPerBatch : Nat := 50

def maxBatchContentBytes : Nat := 500000

def maxRoleLen : Nat := 32

def maxContentLen : Nat := 100000

def truncateRunes (s : Text) (max : Nat) : Text := s.take max

def turnFieldsOK (role content : Text) (turnIndex : Int) : Bool := role ≠ [] && content ≠ [] && 0 ≤ turnIndex

def sanitizeOne (t : Turn) : Option Turn :=
  let role := truncateRunes t.role maxRoleLen
  let content := truncateRunes t.content maxContentLen
  if turnFieldsOK role content t.turnIndex then some ⟨t.turnIndex, role, content⟩ else none

def sanitizeTurns (turns : List Turn) : List Turn := turns.filterMap sanitizeOne

/-! ## The stored text -/

def Turn.json (t : Turn) : Json :=
  .obj [("turn_index".toList, .num (Digits.signed 0 t.turnIndex)), ("role".toList, .str t.role),
    ("content".toList, .str t.content)]

def marshal (turns : List Turn) : Text := Json.marshal (.arr (turns.map Turn.json))

def serializedBytes (turns : List Turn) : Nat := Text.byteLength (marshal turns)

def decodeInt (lit : Text) : Option Int :=
  match lit with
  | '-' :: ds => (Json.natural ds).map fun n => -Int.ofNat n
  | ds => (Json.natural ds).map Int.ofNat

/-- A member that is missing or null leaves the zero value; one of another type is an error. -/
def decodeTurn : Json → Option Turn
  | .obj fields => do
    let turnIndex ← match fields.lookup "turn_index".toList with
      | none | some .null => some 0
      | some (.num lit) => decodeInt lit
      | some _ => none
    let role ← match fields.lookup "role".toList with
      | none | some .null => some []
      | some (.str s) => some s
      | some _ => none
    let content ← match fields.lookup "content".toList with
      | none | some .null => some []
      | some (.str s) => some s
      | some _ => none
    some ⟨turnIndex, role, content⟩
  | .null => some ⟨0, [], []⟩
  | _ => none

def maxDepth : Nat := 10000

def decodeTurns (raw : Text) : Option (List Turn) :=
  match Json.parseValue maxDepth raw with
  | some (.arr elems, rest) => if Json.skipSpace rest = [] then elems.mapM decodeTurn else none
  | some (.null, rest) => if Json.skipSpace rest = [] then some [] else none
  | _ => none

def tryAppendTurn (merged : List Turn) (t : Turn) : Option (List Turn) :=
  if maxTurnsPerBatch ≤ merged.length then none
  else if maxBatchContentBytes < serializedBytes (merged ++ [t]) then none
  else some (merged ++ [t])

/-- The turns that fit, up to the first that does not, and whether there is one. -/
def mergeTurns (merged : List Turn) : List Turn → List Turn × Bool
  | [] => (merged, false)
  | t :: add =>
    match tryAppendTurn merged t with
    | none => (merged, true)
    | some next => mergeTurns next add

/-! ## Calls -/

inductive AppendOutcome where
  | ok
  | skipped
  | cap
  | redisErr
deriving DecidableEq

structure Snapshot where
  turns : List Turn
  raw : Text
deriving DecidableEq

inductive Call where
  /-- `GET` of an append, which begins an attempt -/
  | read (turns : List Turn)
  /-- `appendCASLua`; `added` are the turns of the payload behind those that were read -/
  | compareAndSet (turns : List Turn) (expected payload : Text) (added : List Turn) (capped : Bool)
  | appended (turns : List Turn) (outcome : AppendOutcome)
  | peek
  /-- none when the text could not be decoded -/
  | peeked (snapshot : Option Snapshot)
  /-- `ackIfMatchLua` with the text of a snapshot -/
  | ack (snapshot : Snapshot)
  | acked (snapshot : Snapshot)
  | take
  | took (turns : Option (List Turn))
deriving DecidableEq

structure Batch where
  call : Nat
  turns : List Turn

structure World where
  value : Option Text
  calls : List Call
  /-- in the order of the writes -/
  appends : List Batch
  /-- in the order of the deletes, each with the turns that its call returned -/
  removals : List Batch

inductive Action where
  | append (turns : List Turn)
  | peek
  /-- an ack with the snapshot that the given peek returned -/
  | ack (peek : Nat)
  | take
  /-- the next command of a call -/
  | advance (i : Nat)
  /-- the context of an append is done before an attempt -/
  | cancel (i : Nat)

namespace World

variable (w : World)

def setCall (i : Nat) (call : Call) : World := { w with calls := w.calls.set i call }

def readExpected : Text × List Turn :=
  match w.value with
  | none => ([], [])
  | some raw => (raw, (decodeTurns raw).getD [])

def prepareCASWrite (turns : List Turn) : Call :=
  let (expected, existing) := w.readExpected
  let (merged, capped) := mergeTurns existing (sanitizeTurns turns)
  .compareAndSet turns expected (marshal merged) (merged.drop existing.length) capped

def advance (i : Nat) : Option World :=
  match w.calls[i]? with
  | some (.read turns) => some (w.setCall i (w.prepareCASWrite turns))
  | some (.compareAndSet turns expected payload added capped) =>
    if w.value.getD [] = expected then
      some ({ w with value := some payload, appends := w.appends ++ [Batch.mk i added] }.setCall i
        (.appended turns (if capped then .cap else .ok)))
    else some (w.setCall i (.read turns))
  | some .peek =>
    match w.value with
    | none => some (w.setCall i (.peeked (some ⟨[], []⟩)))
    | some raw => some (w.setCall i (.peeked ((decodeTurns raw).map fun turns => ⟨turns, raw⟩)))
  | some (.ack snapshot) =>
    if snapshot.raw ≠ [] ∧ w.value = some snapshot.raw then
      some ({ w with value := none, removals := w.removals ++ [Batch.mk i snapshot.turns] }.setCall i (.acked snapshot))
    else some (w.setCall i (.acked snapshot))
  | some .take =>
    match w.value with
    | none => some (w.setCall i (.took (some [])))
    | some raw =>
      some ({ w with value := none, removals := w.removals ++ [Batch.mk i ((decodeTurns raw).getD [])] }.setCall i
        (.took (decodeTurns raw)))
  | some (.appended _ _) | some (.peeked _) | some (.acked _) | some (.took _) | none => none

def call (c : Call) : World := { w with calls := w.calls ++ [c] }

def step : Action → Option World
  | .append turns => some (w.call (if sanitizeTurns turns = [] then .appended turns .skipped else .read turns))
  | .peek => some (w.call .peek)
  | .ack peek =>
    match w.calls[peek]? with
    | some (.peeked (some snapshot)) => some (w.call (.ack snapshot))
    | _ => none
  | .take => some (w.call .take)
  | .advance i => w.advance i
  | .cancel i =>
    match w.calls[i]? with
    | some (.read turns) => some (w.setCall i (.appended turns .redisErr))
    | _ => none

def buffered : List Turn := (w.value.bind decodeTurns).getD []

end World

def machine : Machine World Action where
  init w := w = ⟨none, [], [], []⟩
  step := World.step

end

def Turn.payload (t : Turn) : Extraction.Turn := ⟨t.turnIndex.toNat, t.role, t.content⟩

def parseTurns (turns : List Turn) : Bool :=
  turns.all (fun t => 0 ≤ t.turnIndex) && Extraction.acceptsTurns (turns.map Turn.payload)

def appendAll (appends : List (List Turn)) : List Turn :=
  appends.foldl (fun stored turns => (mergeTurns stored (sanitizeTurns turns)).1) []

/-! ## Sizes -/

def htmlWidth (c : Char) : Nat :=
  if c = '&' then 5
  else if c = '<' ∨ c = '>' then 4
  else if c = '\x22' ∨ c = '\x27' then 6
  else c.utf8Size

def Turn.htmlBytes (t : Turn) : Nat :=
  32 + (Nat.toDigits 10 t.turnIndex.toNat).length + (t.role.map htmlWidth).sum + (t.content.map htmlWidth).sum

def htmlBytes (turns : List Turn) : Nat := (turns.map Turn.htmlBytes).sum + (turns.length - 1)

end IbexHarness.ExtractionBuffer
