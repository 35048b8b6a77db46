import Mathlib.Algebra.GroupWithZero.Nat
import Mathlib.Data.List.DropRight

/-! Strings of the source languages as lists of code points, with the white space each language trims. -/

abbrev IbexHarness.Uuid := Nat

namespace IbexHarness.Lib

open List

abbrev Text := List Char

instance : LawfulBEq Text := inferInstance

namespace Text

def isWhiteSpace (c : Char) : Bool :=
  let n := c.toNat
  (9 ≤ n && n ≤ 13) || n == 0x20 || n == 0x85 || n == 0xA0 || n == 0x1680 ||
    (0x2000 ≤ n && n ≤ 0x200A) || n == 0x2028 || n == 0x2029 || n == 0x202F || n == 0x205F || n == 0x3000

/-- What Python's `str.isspace` and `str.strip` treat as space: the four separators in addition. -/
def isPythonSpace (c : Char) : Bool := isWhiteSpace c || (0x1C ≤ c.toNat && c.toNat ≤ 0x1F)

def byteLength (s : Text) : Nat := (s.map Char.utf8Size).sum

def isAscii (s : Text) : Bool := s.all fun c => c.toNat < 128

def stripBy (p : Char → Bool) (s : Text) : Text := (s.dropWhile p).rdropWhile p

def trimSpace (s : Text) : Text := stripBy isWhiteSpace s

def strip (s : Text) : Text := stripBy isPythonSpace s

theorem byteLength_append (s t : Text) : byteLength (s ++ t) = byteLength s + byteLength t := by
  simp [byteLength]

theorem byteLength_of_isAscii {s : Text} (h : isAscii s = true) : byteLength s = s.length := by
  induction s with
  | nil => rfl
  | cons c s ih =>
    simp only [isAscii, all_cons, Bool.and_eq_true, decide_eq_true_eq] at h
    have hc : c.utf8Size = 1 := by
      rw [Char.utf8Size_eq_one_iff]
      exact Nat.le_of_lt_succ h.1
    have hs : byteLength s = s.length := ih h.2
    simp only [byteLength] at hs
    simp [byteLength, hc, hs, Nat.add_comm]

section Stop

variable {p : Char → Bool} {s t : Text}

theorem takeWhile_append_stop (hs : ∀ c ∈ s, p c = true) (ht : ∀ c ∈ t.head?, p c = false) :
    (s ++ t).takeWhile p = s := by
  rw [takeWhile_append_of_pos hs]
  cases t with
  | nil => simp
  | cons c t => simp [ht c rfl]

theorem dropWhile_append_stop (hs : ∀ c ∈ s, p c = true) (ht : ∀ c ∈ t.head?, p c = false) :
    (s ++ t).dropWhile p = t := by
  rw [dropWhile_append_of_pos hs]
  cases t with
  | nil => rfl
  | cons c t => simp [ht c rfl]

end Stop

theorem length_stripBy_le (p : Char → Bool) (s : Text) : (stripBy p s).length ≤ s.length :=
  ( rdropWhile_prefix p _).length_le.trans (dropWhile_suffix p).length_le

theorem dropWhile_stripBy (p : Char → Bool) (s : Text) : (stripBy p s).dropWhile p = stripBy p s := by
  obtain ⟨t, ht⟩ := rdropWhile_prefix p (s.dropWhile p)
  have hidem := dropWhile_idempotent p s
  unfold stripBy
  cases hstrip : (s.dropWhile p).rdropWhile p with
  | nil => rfl
  | cons c r =>
    rw [hstrip, cons_append] at ht
    have hc : ¬ p c = true := by
      rw [← ht, dropWhile_eq_self_iff] at hidem
      exact hidem (Nat.succ_pos _)
    exact dropWhile_cons_of_neg hc

theorem stripBy_stripBy (p : Char → Bool) (s : Text) : stripBy p (stripBy p s) = stripBy p s := by
  rw [stripBy, dropWhile_stripBy, stripBy, rdropWhile_idempotent]

theorem trimSpace_trimSpace (s : Text) : trimSpace (trimSpace s) = trimSpace s := stripBy_stripBy isWhiteSpace s

theorem size_intercalate {size : Text → Nat} (hnil : size [] = 0) (happend : ∀ s t, size (s ++ t) = size s + size t)
    (sep : Text) (parts : List Text) :
    size (sep.intercalate parts) = (parts.map size).sum + size sep * (parts.length - 1) := by
  induction parts with
  | nil => simpa [List.intercalate] using hnil
  | cons s parts ih =>
    cases parts with
    | nil => simp [List.intercalate]
    | cons t parts =>
      rw [intercalate_cons_cons, happend, happend, ih]
      simp only [map_cons, sum_cons, length_cons, Nat.add_sub_cancel, Nat.mul_add]
      omega

theorem length_intercalate (sep : Text) (parts : List Text) :
    (sep.intercalate parts).length = (parts.map List.length).sum + sep.length * (parts.length - 1) :=
  size_intercalate rfl (fun _ _ => length_append) sep parts

theorem byteLength_intercalate (sep : Text) (parts : List Text) :
    byteLength (sep.intercalate parts) = (parts.map byteLength).sum + byteLength sep * (parts.length - 1) :=
  size_intercalate rfl byteLength_append sep parts

end Text

end IbexHarness.Lib
