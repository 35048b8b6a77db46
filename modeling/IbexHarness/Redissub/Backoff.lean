import IbexHarness.Lib.Machine
import Mathlib.Logic.Function.Iterate

/-! The delays of `Loop.Run` in `packages/redissub/loop.go`, in nanoseconds. -/

namespace IbexHarness.Redissub

open Lib Option

def initialBackoff : Nat := 1000000000

def maxBackoff : Nat := 30 * 1000000000

/-- What a session returned, and whether the sleep after it lasted until its timer. -/
structure Round where
  established : Bool
  err : Option String
  fired : Bool

structure Pause where
  warning : Option (String × String × Nat)
  slept : Nat
  backoff : Nat

-- the cap is tested before the backoff is doubled
def double (backoff : Nat) : Nat := if backoff < maxBackoff then backoff * 2 else backoff

def afterSession (name : String) (r : Round) (backoff : Nat) : Pause :=
  let backoff := if r.established then initialBackoff else backoff
  { warning := r.err.map fun err => (name ++ " subscriber disconnected; reconnecting", err, backoff)
    slept := backoff
    backoff := if r.fired then double backoff else 0 }

/-- The pause of `Run` after session `n`, unless a sleep that was cut short has ended it before. -/
def pause (name : String) (rs : Nat → Round) : Nat → Option Pause
  | 0 => some (afterSession name (rs 0) initialBackoff)
  | n + 1 => (pause name rs n).bind fun p =>
    if p.backoff = 0 then none else some (afterSession name (rs (n + 1)) p.backoff)

/-- How many sessions in a row were not established, not counting the first of all. -/
def since (rs : Nat → Round) : Nat → Nat
  | 0 => 0
  | n + 1 => if (rs (n + 1)).established then 0 else since rs n + 1

variable {name : String} {rs : Nat → Round} {n : Nat} {p : Pause}

theorem le_double (b : Nat) : b ≤ double b := by
  unfold double
  split <;> omega

theorem double_iterate_le {j k : Nat} (h : j ≤ k) : double^[j] initialBackoff ≤ double^[k] initialBackoff := by
  induction h with
  | refl => exact Nat.le_refl _
  | step _ ih =>
    rw [Function.iterate_succ_apply']
    exact Nat.le_trans ih (le_double _)

theorem double_iterate_le_iff (k : Nat) : double^[k] initialBackoff ≤ maxBackoff ↔ k < 5 := by
  constructor
  · intro h
    by_contra hk
    have hfive := double_iterate_le (Nat.le_of_not_lt hk)
    exact absurd (Nat.le_trans hfive h) (by decide)
  · intro hk
    exact Nat.le_trans (double_iterate_le (Nat.le_of_lt_succ hk)) (by decide)

theorem slept_eq (h : pause name rs n = some p) :
    p.slept = double^[since rs n] initialBackoff ∧ (p.backoff = 0 ∨ p.backoff = double p.slept) := by
  have hnext (r : Round) (b : Nat) : (afterSession name r b).backoff = 0 ∨
      (afterSession name r b).backoff = double (afterSession name r b).slept := by
    cases hf : r.fired <;> simp [afterSession, hf]
  induction n generalizing p with
  | zero =>
    cases h
    refine ⟨?_, hnext _ _⟩
    simp [afterSession, since]
  | succ n ih =>
    obtain ⟨q, hq, h⟩ := bind_eq_some_iff.mp h
    obtain ⟨hne, rfl⟩ := of_ite_none h
    obtain ⟨hslept, hbackoff⟩ := ih hq
    refine ⟨?_, hnext _ _⟩
    unfold afterSession since
    split
    · rfl
    · rw [Function.iterate_succ_apply', ← hslept]
      exact hbackoff.resolve_left hne

theorem since_lt_iff {c : Nat} :
    since rs n < c ↔ n < c ∨ ∃ m, m ≤ n ∧ n < m + c ∧ (rs m).established = true := by
  induction n generalizing c with
  | zero => grind [since]
  | succ n ih =>
    unfold since
    split
    · grind
    · cases c with
      | zero => grind
      | succ c =>
        rw [Nat.add_lt_add_iff_right, ih]
        grind

theorem since_le {m : Nat} (hm : m ≤ n) (h : ∀ k, m < k → k ≤ n → (rs k).established = false) :
    since rs m ≤ since rs n := by
  induction hm with
  | refl => exact Nat.le_refl _
  | @step n hm ih =>
    have hn := h (n + 1) (Nat.lt_succ_of_le hm) (Nat.le_refl _)
    have hle := ih fun k hk hkn => h k hk (Nat.le_succ_of_le hkn)
    simp only [since, hn]
    exact Nat.le_succ_of_le hle

/-- The delays grow from an established session on, and pass the cap with the fifth session after it. -/
theorem delays_of_rounds (name : String) (rs : Nat → Round) :
    (∀ n p, pause name rs n = some p → initialBackoff ≤ p.slept ∧
      ((rs n).established = true → p.slept = initialBackoff) ∧
      (p.slept ≤ maxBackoff ↔ n < 5 ∨ ∃ m, m ≤ n ∧ n < m + 5 ∧ (rs m).established = true)) ∧
    ∀ m n p q, m ≤ n → (∀ k, m < k → k ≤ n → (rs k).established = false) → pause name rs m = some p →
      pause name rs n = some q → p.slept ≤ q.slept := by
  refine ⟨fun n p hp => ?_, fun m n p q hmn hk hp hq => ?_⟩
  · rw [(slept_eq hp).1, double_iterate_le_iff, since_lt_iff]
    refine ⟨double_iterate_le (Nat.zero_le _), fun hn => ?_, Iff.rfl⟩
    have hzero : since rs n = 0 := by cases n <;> simp [since, hn]
    rw [hzero, Function.iterate_zero_apply]
  · rw [(slept_eq hp).1, (slept_eq hq).1]
    exact double_iterate_le (since_le hmn hk)

theorem delay_exceeds_maxBackoff :
    ∃ p, pause "directive" (fun _ => ⟨false, some "refused", true⟩) 5 = some p ∧ maxBackoff < p.slept :=
  ⟨_, rfl, by decide⟩

end IbexHarness.Redissub
