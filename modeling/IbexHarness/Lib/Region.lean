import Mathlib.Order.Nat
import Mathlib.Algebra.GroupWithZero.Nat

/-! Boolean combinations of ranges. -/

namespace IbexHarness.Lib

open List

inductive Region where
  | empty
  | range (lo hi : Nat)
  | union (r s : Region)
  | inter (r s : Region)
  | compl (r : Region)

namespace Region

def mem (n : Nat) : Region → Bool
  | empty => false
  | range lo hi => lo ≤ n && n < hi
  | union r s => r.mem n || s.mem n
  | inter r s => r.mem n && s.mem n
  | compl r => !r.mem n

def ends : Region → List Nat
  | empty => []
  | range lo hi => [lo, hi]
  | union r s => r.ends ++ s.ends
  | inter r s => r.ends ++ s.ends
  | compl r => r.ends

def single (n : Nat) : Region := range n (n + 1)

def diff (r s : Region) : Region := inter r (compl s)

def any (rs : List Region) : Region := rs.foldr union empty

/-- The numbers whose last `k` bits are free and whose other bits are those of `a`. -/
def block (k a : Nat) : Region := range (a / 2 ^ k * 2 ^ k) ((a / 2 ^ k + 1) * 2 ^ k)

variable {r s : Region} {m n k a lo hi : Nat}

@[simp] theorem mem_range : (range lo hi).mem n = (decide (lo ≤ n) && decide (n < hi)) := rfl
@[simp] theorem mem_union : (union r s).mem n = (r.mem n || s.mem n) := rfl
@[simp] theorem mem_inter : (inter r s).mem n = (r.mem n && s.mem n) := rfl
@[simp] theorem mem_compl : (compl r).mem n = !r.mem n := rfl
@[simp] theorem mem_diff : (diff r s).mem n = (r.mem n && !s.mem n) := rfl

@[simp] theorem mem_single : (single a).mem n = decide (n = a) := by
  rw [single, mem_range, ← Bool.decide_and, decide_eq_decide]
  omega

theorem mem_any (rs : List Region) : (any rs).mem n = rs.any (·.mem n) := by
  induction rs with
  | nil => rfl
  | cons r rs ih => simpa [any] using congrArg (r.mem n || ·) ih

theorem mem_block : (block k a).mem n = decide (n / 2 ^ k = a / 2 ^ k) := by
  rw [block, mem_range, ← Bool.decide_and, decide_eq_decide, ← Nat.le_div_iff_mul_le (Nat.two_pow_pos k),
    ← Nat.div_lt_iff_lt_mul (Nat.two_pow_pos k)]
  omega

theorem mem_eq_of_sameSide (h : ∀ e ∈ r.ends, e ≤ m ↔ e ≤ n) : r.mem m = r.mem n := by
  induction r with
  | empty => rfl
  | range lo hi =>
    have hlo := h lo (by simp [ends])
    have hhi := h hi (by simp [ends])
    rw [mem_range, mem_range, ← Bool.decide_and, ← Bool.decide_and, decide_eq_decide, hlo, ← not_le, ← not_le, hhi]
  | union r s ihr ihs =>
    rw [mem_union, mem_union, ihr fun e he => h e (mem_append_left _ he), ihs fun e he => h e (mem_append_right _ he)]
  | inter r s ihr ihs =>
    rw [mem_inter, mem_inter, ihr fun e he => h e (mem_append_left _ he), ihs fun e he => h e (mem_append_right _ he)]
  | compl r ih => rw [mem_compl, mem_compl, ih h]

theorem exists_representative (ends : List Nat) (n : Nat) :
    ∃ e ∈ 0 :: ends, e ≤ n ∧ ∀ e' ∈ ends, e' ≤ e ↔ e' ≤ n := by
  induction ends with
  | nil => exact ⟨0, mem_cons_self, Nat.zero_le n, by simp⟩
  | cons x ends ih =>
    obtain ⟨e, he, hen, hsame⟩ := ih
    have he' : e ∈ 0 :: x :: ends := by
      rcases mem_cons.mp he with rfl | he
      · exact mem_cons_self
      · exact mem_cons_of_mem _ (mem_cons_of_mem _ he)
    -- `x` takes over when it lies between `e` and `n`
    by_cases hx : e < x ∧ x ≤ n
    · refine ⟨x, by simp, hx.2, fun e' hmem => ?_⟩
      rcases mem_cons.mp hmem with rfl | hmem
      · exact iff_of_true le_rfl hx.2
      · exact ⟨fun hle => hle.trans hx.2, fun hle => ((hsame e' hmem).mpr hle).trans hx.1.le⟩
    · refine ⟨e, he', hen, fun e' hmem => ?_⟩
      rcases mem_cons.mp hmem with rfl | hmem
      · exact ⟨fun hle => hle.trans hen, fun hle => not_lt.mp fun hlt => hx ⟨hlt, hle⟩⟩
      · exact hsame e' hmem

theorem mem_eq_of_ends {bound : Nat} (h : ∀ e ∈ 0 :: (r.ends ++ s.ends), e < bound → r.mem e = s.mem e)
    (hn : n < bound) :
    r.mem n = s.mem n := by
  obtain ⟨e, he, hen, hsame⟩ := exists_representative (r.ends ++ s.ends) n
  have hr : r.mem e = r.mem n := mem_eq_of_sameSide fun e' he' => hsame e' (mem_append_left _ he')
  have hs : s.mem e = s.mem n := mem_eq_of_sameSide fun e' he' => hsame e' (mem_append_right _ he')
  rw [← hr, ← hs]
  exact h e he (hen.trans_lt hn)

end Region

end IbexHarness.Lib
