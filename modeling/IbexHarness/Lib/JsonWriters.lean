import IbexHarness.Lib.Double
import IbexHarness.Lib.JsonParse
import Mathlib.Data.List.Sort

/-! Canonical JSON (RFC 8785), and JSON as `encoding/json` writes it. -/

namespace IbexHarness.Lib.Json

open List

section

/-! ## Text without blanks -/

mutual

def compact : Json → Text
  | .null => ['n', 'u', 'l', 'l']
  | .bool true => ['t', 'r', 'u', 'e']
  | .bool false => ['f', 'a', 'l', 's', 'e']
  | .num lit => lit
  | .str s => quote s
  | .arr elems => ['['] ++ [','].intercalate (compactElems elems) ++ [']']
  | .obj fields => ['{'] ++ [','].intercalate (compactFields fields) ++ ['}']

def compactElems : List Json → List Text
  | [] => []
  | v :: vs => compact v :: compactElems vs

def compactFields : List (Text × Json) → List Text
  | [] => []
  | (k, v) :: fs => (quote k ++ [':'] ++ compact v) :: compactFields fs

end

def utf16 (s : Text) : List Nat :=
  s.flatMap fun c =>
    if c.toNat < 0x10000 then [c.toNat]
    else [0xD800 + (c.toNat - 0x10000) / 0x400, 0xDC00 + (c.toNat - 0x10000) % 0x400]

def natural (lit : Text) : Option Nat :=
  if lit ≠ [] ∧ lit.all Char.isDigit then some (Nat.ofDigitChars 10 lit 0) else none

section Canonical

variable (other : Text → Option Text)

def canonicalNumber (lit : Text) : Option Text :=
  match natural lit with
  | some n => if n < 10 ^ 21 then some (Nat.toDigits 10 (Double.es6 n)) else other lit
  | none => other lit

def sortFields (fields : List (Text × Json)) : List (Text × Json) :=
  fields.insertionSort fun f g => utf16 f.1 ≤ utf16 g.1

mutual

def canonical : Json → Option Json
  | .null => some .null
  | .bool b => some (.bool b)
  | .num lit => (canonicalNumber other lit).map .num
  | .str s => some (.str s)
  | .arr elems => (canonicalElems elems).map .arr
  | .obj fields => (canonicalFields fields).map fun fs => .obj (sortFields fs)

def canonicalElems : List Json → Option (List Json)
  | [] => some []
  | v :: vs => (canonical v).bind fun v => (canonicalElems vs).map (v :: ·)

def canonicalFields : List (Text × Json) → Option (List (Text × Json))
  | [] => some []
  | (k, v) :: fs => (canonical v).bind fun v => (canonicalFields fs).map ((k, v) :: ·)

end

end Canonical

theorem natural_toDigits (n : Nat) : natural (Nat.toDigits 10 n) = some n := by
  have hdigits : (Nat.toDigits 10 n).all Char.isDigit = true :=
    all_eq_true.mpr fun c hc => Nat.isDigit_of_mem_toDigits (by decide) (by decide) hc
  rw [natural, if_pos ⟨Nat.toDigits_ne_nil, hdigits⟩, Nat.ofDigitChars_ten_toDigits]

theorem canonicalNumber_toDigits {other : Text → Option Text} {n : Nat} (h : n < 10 ^ 21) :
    canonicalNumber other (Nat.toDigits 10 n) = some (Nat.toDigits 10 (Double.es6 n)) := by
  rw [canonicalNumber, natural_toDigits]
  simp only [h, if_true]

theorem compactElems_eq_map (vs : List Json) : compactElems vs = vs.map compact := by
  induction vs with
  | nil => rfl
  | cons v vs ih => rw [compactElems, ih, map_cons]

def compactField (f : Text × Json) : Text := quote f.1 ++ [':'] ++ compact f.2

theorem compactFields_eq_map (fs : List (Text × Json)) : compactFields fs = fs.map compactField := by
  induction fs with
  | nil => rfl
  | cons f fs ih => rw [compactFields, ih, map_cons, compactField]

theorem byteLength_compact_obj (fs : List (Text × Json)) : Text.byteLength (compact (.obj fs)) =
      (fs.map fun f => Text.byteLength (quote f.1)).sum + (fs.map fun f => Text.byteLength (compact f.2)).sum +
        fs.length + (fs.length - 1) + 2 := by
  have hone : ∀ c : Char, c.utf8Size = 1 → Text.byteLength [c] = 1 := by simp [Text.byteLength]
  have hfields : ((fs.map compactField).map Text.byteLength).sum =
      (fs.map fun f => Text.byteLength (quote f.1)).sum + (fs.map fun f => Text.byteLength (compact f.2)).sum +
        fs.length := by
    induction fs with
    | nil => rfl
    | cons f fs ih =>
      simp only [map_cons, sum_cons, length_cons, ih]
      simp only [compactField, Text.byteLength_append, hone ':' rfl]
      omega
  rw [compact, Text.byteLength_append, Text.byteLength_append, Text.byteLength_intercalate, compactFields_eq_map,
    hfields, length_map, hone '\x7b' rfl, hone '\x7d' rfl, hone ',' rfl]
  omega

theorem compact_writes : Writes compact escape [] where
  escape := readChar_escape
  blank _ := rfl
  null := rfl
  bool v := by cases v <;> rfl
  num _ := rfl
  str _ := rfl
  arr vs := by rw [compact, compactElems_eq_map]
  obj fs := by
    rw [compact, compactFields_eq_map]
    rfl

end

def goEscape (c : Char) : Text :=
  if c = '<' then "\\u003c".toList
  else if c = '>' then "\\u003e".toList
  else if c = '&' then "\\u0026".toList
  else if c = Char.ofNat 0x2028 then "\\u2028".toList
  else if c = Char.ofNat 0x2029 then "\\u2029".toList
  else escape c

def goQuote (s : Text) : Text := ['\x22'] ++ s.flatMap goEscape ++ ['\x22']

mutual

def marshal : Json → Text
  | .null => ['n', 'u', 'l', 'l']
  | .bool true => ['t', 'r', 'u', 'e']
  | .bool false => ['f', 'a', 'l', 's', 'e']
  | .num lit => lit
  | .str s => goQuote s
  | .arr elems => ['['] ++ [','].intercalate (marshalElems elems) ++ [']']
  | .obj fields => ['{'] ++ [','].intercalate (marshalFields fields) ++ ['}']

def marshalElems : List Json → List Text
  | [] => []
  | v :: vs => marshal v :: marshalElems vs

def marshalFields : List (Text × Json) → List Text
  | [] => []
  | (k, v) :: fs => (goQuote k ++ [':'] ++ marshal v) :: marshalFields fs

end

def marshalField (f : Text × Json) : Text := goQuote f.1 ++ [':'] ++ marshal f.2

theorem marshalElems_eq_map (vs : List Json) : marshalElems vs = vs.map marshal := by
  induction vs with
  | nil => rfl
  | cons v vs ih => rw [marshalElems, ih, map_cons]

theorem marshalFields_eq_map (fs : List (Text × Json)) : marshalFields fs = fs.map marshalField := by
  induction fs with
  | nil => rfl
  | cons f fs ih => rw [marshalFields, ih, map_cons, marshalField]

theorem readChar_goEscape (c : Char) (s : Text) : readChar (goEscape c ++ s) = some (some c, s) := by
  unfold goEscape
  split_ifs with h₁ h₂ h₃ h₄ h₅
  · rw [h₁]; rfl
  · rw [h₂]; rfl
  · rw [h₃]; rfl
  · rw [h₄]; rfl
  · rw [h₅]; rfl
  · exact readChar_escape c s

theorem marshal_writes : Writes marshal goEscape [] where
  escape := readChar_goEscape
  blank _ := rfl
  null := rfl
  bool v := by cases v <;> rfl
  num _ := rfl
  str _ := rfl
  arr vs := by rw [marshal, marshalElems_eq_map]
  obj fs := by
    rw [marshal, marshalFields_eq_map]
    rfl

end IbexHarness.Lib.Json
