import Mathlib.Algebra.GroupWithZero.Nat

/-! The last `width` bytes of a number, the most significant first. -/

namespace IbexHarness.Lib.Bytes

open List

def ofNat : Nat → Nat → List UInt8
  | 0, _ => []
  | width + 1, n => ofNat width (n / 256) ++ [UInt8.ofNat n]

@[simp] theorem length_ofNat (width n : Nat) : (ofNat width n).length = width := by
  induction width generalizing n with
  | zero => rfl
  | succ width ih => simp [ofNat, ih]

theorem byte_eq_iff (m n : Nat) : UInt8.ofNat m = UInt8.ofNat n ↔ m % 256 = n % 256 := by
  rw [← UInt8.toNat_inj, UInt8.toNat_ofNat', UInt8.toNat_ofNat']

theorem ofNat_inj {width m n : Nat} (hm : m < 256 ^ width) (hn : n < 256 ^ width) :
    ofNat width m = ofNat width n ↔ m = n := by
  refine ⟨fun h => ?_, fun h => by rw [h]⟩
  induction width generalizing m n with
  | zero => omega
  | succ width ih =>
    rw [Nat.pow_succ'] at hm hn
    obtain ⟨hinit, hlast⟩ := append_inj' h rfl
    have hdiv := ih (Nat.div_lt_of_lt_mul hm) (Nat.div_lt_of_lt_mul hn) hinit
    have hmod := (byte_eq_iff m n).mp (List.cons.inj hlast).1
    omega

theorem ofNat_append (front back n : Nat) : ofNat (front + back) n = ofNat front (n / 256 ^ back) ++ ofNat back n := by
  induction back generalizing n with
  | zero => simp [ofNat]
  | succ back ih => rw [← Nat.add_assoc, ofNat, ih, ofNat, append_assoc, Nat.div_div_eq_div_mul, ← Nat.pow_succ']

theorem take_ofNat (front back n : Nat) : (ofNat (front + back) n).take front = ofNat front (n / 256 ^ back) := by
  rw [ofNat_append, take_left' (length_ofNat ..)]

theorem drop_ofNat (front back n : Nat) : (ofNat (front + back) n).drop front = ofNat back n := by
  rw [ofNat_append, drop_left' (length_ofNat ..)]

theorem getD_ofNat {width i : Nat} (hi : i < width) (n : Nat) :
    (ofNat width n).getD i 0 = UInt8.ofNat (n / 256 ^ (width - 1 - i)) := by
  obtain ⟨back, rfl⟩ : ∃ back, width = (i + 1) + back := ⟨width - (i + 1), by omega⟩
  have hlast : (ofNat i (n / 256 ^ back / 256) ++ [UInt8.ofNat (n / 256 ^ back)])[i]? =
    some (UInt8.ofNat (n / 256 ^ back)) := by
    rw [List.getElem?_append_right (by simp)]
    simp
  have hback : i + 1 + back - 1 - i = back := by omega
  rw [ofNat_append, getD_eq_getElem?_getD, List.getElem?_append_left (by simp), ofNat, hlast, Option.getD_some, hback]

end IbexHarness.Lib.Bytes
