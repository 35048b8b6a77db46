import IbexHarness.Lib.Calendar
import IbexHarness.Lib.JsonParse
import Mathlib.Algebra.Ring.Int.Defs
import Mathlib.Data.List.Sort

/-! `packages/privacyaudit/canonical.go`. -/

namespace IbexHarness.Audit

open Lib

def genesisPrevHash : Text := List.replicate 64 '0'

abbrev UuidBytes := BitVec 128

/-- One ledger row. The payload is the text of a JSON value and `createdAt` an instant in nanoseconds. -/
structure Entry where
  orgId : UuidBytes
  seq : Int
  prevHash : Text
  actorUserId : Option UuidBytes
  action : Text
  purpose : Text
  policyResult : Text
  objectType : Text
  objectId : Text
  fields : List Text
  approvalRef : Text
  beforeHash : Text
  afterHash : Text
  correlationId : Text
  requestId : Text
  payload : Text
  createdAt : Int
  rowHash : Text

inductive Fault where
  | payload
  | invalidNumber (lit : Text)
  | exponentRange (lit : Text)
  | expansion
  | emptySignificand
  | significand (s : Text)
deriving DecidableEq

/-! ## Numbers -/

def isExponentMark (c : Char) : Bool := c == 'e' || c == 'E'

def atoi (s : Text) : Option Int :=
  let negative := s.head? == some '-'
  let digits := if negative || s.head? == some '+' then s.drop 1 else s
  if digits.isEmpty || !digits.all Char.isDigit then none
  else
    let n : Int := Nat.ofDigitChars 10 digits 0
    let x := if negative then -n else n
    if -2 ^ 63 ≤ x ∧ x < 2 ^ 63 then some x else none

def maxExpandedJSONNumberLen : Int := 4096

def checkExpandedNumberLen (base pad : Int) : Except Fault Unit :=
  if pad < 0 then .error .expansion
  else if base < 0 then .error .expansion
  else if base > maxExpandedJSONNumberLen then .error .expansion
  else if pad > maxExpandedJSONNumberLen - base then .error .expansion
  else .ok ()

structure Significand where
  sign : Text
  digits : Text
  fracDigits : Nat

def splitSignificand (significand : Text) : Except Fault Significand :=
  let sign := if significand.head? == some '-' then ['-'] else []
  let significand := if significand.head? == some '+' || significand.head? == some '-' then significand.drop 1
    else significand
  if significand.isEmpty then .error .emptySignificand
  else
    let int := significand.takeWhile (· != '.')
    let frac := (significand.dropWhile (· != '.')).drop 1
    let digits := int ++ frac
    if digits.isEmpty || !digits.all Char.isDigit then .error (.significand significand)
    else .ok ⟨sign, digits, frac.length⟩

def placeDecimal (digits : Text) (scale : Nat) : Text :=
  if scale = 0 then digits
  else
    let digits := if digits.length ≤ scale then List.replicate (scale + 1 - digits.length) '0' ++ digits
      else digits
    let i := digits.length - scale
    let intPart := (digits.take i).dropWhile (· == '0')
    (if intPart.isEmpty then ['0'] else intPart) ++ '.' :: digits.drop i

-- an exponent near the end of the 64 bit range wraps around in the source; both sides then exceed the limit
def expandScientificDecimal (significand : Text) (exp : Int) : Except Fault Text := do
  let s ← splitSignificand significand
  let power := exp - s.fracDigits
  if 0 ≤ power then
    checkExpandedNumberLen (s.sign.length + s.digits.length) power
    .ok (s.sign ++ s.digits ++ List.replicate power.toNat '0')
  else
    let scale := -power
    checkExpandedNumberLen (s.sign.length + s.digits.length + 1) scale
    .ok (s.sign ++ placeDecimal s.digits scale.toNat)

def formatJSONBNumber (lit : Text) : Except Fault Text :=
  let significand := lit.takeWhile (!isExponentMark ·)
  match lit.dropWhile (!isExponentMark ·) with
  | [] => .ok lit
  | _ :: exp =>
    if significand.isEmpty || exp.isEmpty then .error (.invalidNumber lit)
    else
      match atoi exp with
      | none => .error (.exponentRange lit)
      | some exp => expandScientificDecimal significand exp

/-! ## Values -/

def bytes (s : Text) : List UInt8 := s.flatMap String.utf8EncodeChar

def BytesLE (s t : Text) : Prop := bytes s ≤ bytes t

instance : DecidableRel BytesLE := fun s t => inferInstanceAs (Decidable (bytes s ≤ bytes t))

def sortStrings (l : List Text) : List Text := l.insertionSort BytesLE

def KeyLE (k k' : Text) : Prop :=
  if k.byteLength ≠ k'.byteLength then k.byteLength < k'.byteLength else BytesLE k k'

instance : DecidableRel KeyLE := fun k k' =>
  inferInstanceAs (Decidable (if k.byteLength ≠ k'.byteLength then _ else _))

def sortedMembers {α : Type} (members : List (Text × α)) : List (Text × α) :=
  members.insertionSort fun a b => KeyLE a.1 b.1

mutual

def sortJSON : Json → Json
  | .obj fields => .obj (sortedMembers (sortJSONObject fields))
  | .arr elems => .arr (sortJSONArray elems)
  | .null => .null
  | .bool b => .bool b
  | .num lit => .num lit
  | .str s => .str s

def sortJSONObject : List (Text × Json) → List (Text × Json)
  | [] => []
  | (k, v) :: fs => (k, sortJSON v) :: sortJSONObject fs

def sortJSONArray : List Json → List Json
  | [] => []
  | v :: vs => sortJSON v :: sortJSONArray vs

end

def jsonStringEscapes (r : Char) : Option Text :=
  if r = '\x22' then some ['\\', '\x22']
  else if r = '\\' then some ['\\', '\\']
  else if r = '\x08' then some ['\\', 'b']
  else if r = '\x0c' then some ['\\', 'f']
  else if r = '\n' then some ['\\', 'n']
  else if r = '\r' then some ['\\', 'r']
  else if r = '\t' then some ['\\', 't']
  else none

def writeJSONStringRune (r : Char) : Text :=
  match jsonStringEscapes r with
  | some esc => esc
  | none => if r.toNat < 0x20 then ['\\', 'u'] ++ Digits.hex 4 r.toNat else [r]

def writeJSONString (s : Text) : Text := ['\x22'] ++ s.flatMap writeJSONStringRune ++ ['\x22']

def writeMember (member : Text × Except Fault Text) : Except Fault Text := do
  let value ← member.2
  .ok (writeJSONString member.1 ++ [':', ' '] ++ value)

mutual

def writeJSONB : Json → Except Fault Text
  | .null => .ok "null".toList
  | .bool true => .ok "true".toList
  | .bool false => .ok "false".toList
  | .num lit => formatJSONBNumber lit
  | .str s => .ok (writeJSONString s)
  | .arr elems => do
    let parts ← (writeJSONArray elems).mapM id
    .ok (['['] ++ [',', ' '].intercalate parts ++ [']'])
  | .obj fields => do
    -- members are written, and fail, in the order of their keys
    let parts ← (sortedMembers (writeJSONObject fields)).mapM writeMember
    .ok (['{'] ++ [',', ' '].intercalate parts ++ ['}'])

def writeJSONArray : List Json → List (Except Fault Text)
  | [] => []
  | v :: vs => writeJSONB v :: writeJSONArray vs

def writeJSONObject : List (Text × Json) → List (Text × Except Fault Text)
  | [] => []
  | (k, v) :: fs => (k, writeJSONB v) :: writeJSONObject fs

end

def maxNestingDepth : Nat := 10000

def decodeJSONNumber (raw : Text) : Option Json := (Json.parseValue maxNestingDepth raw).map Prod.fst

def payloadValue (raw : Text) : Except Fault Json :=
  if raw.isEmpty then .ok (.obj [])
  else
    match decodeJSONNumber raw with
    | none => .error .payload
    | some v => .ok (sortJSON v)

/-! ## Rows -/

def uuidString (id : UuidBytes) : Text :=
  let h := Digits.hex 32 id.toNat
  h.take 8 ++ '-' :: (h.drop 8).take 4 ++ '-' :: (h.drop 12).take 4 ++ '-' :: (h.drop 16).take 4 ++ '-' :: h.drop 20

def actorString : Option UuidBytes → Text
  | none => []
  | some id => uuidString id

def formatCreatedAt (createdAt : Int) : Text := Calendar.instantText (Digits.signed 4) (createdAt / 1000)

def sortedFieldsAny (fields : List Text) : Json := .arr ((sortStrings fields).map .str)

def entryArray (e : Entry) (payload : Json) : List Json :=
  [.str (uuidString e.orgId), .num (Digits.signed 0 e.seq), .str e.prevHash, .str (actorString e.actorUserId),
    .str e.action, .str e.purpose, .str e.policyResult, .str e.objectType, .str e.objectId,
    sortedFieldsAny e.fields, .str e.approvalRef, .str e.beforeHash, .str e.afterHash, .str e.correlationId,
    .str e.requestId, payload, .str (formatCreatedAt e.createdAt)]

def canonicalString (e : Entry) : Except Fault Text := do
  let payload ← payloadValue e.payload
  writeJSONB (.arr (entryArray e payload))

/-! ## The chain -/

inductive ChainError where
  | expectedSeq (want got : Int)
  | prevHashMismatch (seq : Int)
  | rowHashMismatch (seq : Int)
  | fault (f : Fault)
deriving DecidableEq

structure ChainBreak where
  index : Nat
  seq : Int
  err : ChainError
deriving DecidableEq

def checkSeq (i : Nat) (e : Entry) : Except ChainBreak Unit :=
  let wantSeq : Int := i + 1
  if e.seq = wantSeq then .ok () else .error ⟨i, e.seq, .expectedSeq wantSeq e.seq⟩

def checkPrevHash (i : Nat) (e : Entry) (prev : Text) : Except ChainBreak Unit :=
  let wantPrev := if 0 < i then prev else genesisPrevHash
  if e.prevHash = wantPrev then .ok () else .error ⟨i, e.seq, .prevHashMismatch e.seq⟩

section Hash

variable (sha256Hex : Text → Text)

def rowHash (e : Entry) : Except Fault Text := (canonicalString e).map sha256Hex

def checkRowHash (i : Nat) (e : Entry) : Except ChainBreak Unit :=
  match rowHash sha256Hex e with
  | .error f => .error ⟨i, e.seq, .fault f⟩
  | .ok got => if got = e.rowHash then .ok () else .error ⟨i, e.seq, .rowHashMismatch e.seq⟩

def verifyFrom : Nat → Text → List Entry → Except ChainBreak Unit
  | _, _, [] => .ok ()
  | i, prev, e :: es => do
    checkSeq i e
    checkPrevHash i e prev
    checkRowHash sha256Hex i e
    verifyFrom (i + 1) e.rowHash es

def verifyChain (entries : List Entry) : Except ChainBreak Unit := verifyFrom sha256Hex 0 [] entries

end Hash

end IbexHarness.Audit
