import Mathlib.Tactic.Linarith

/-! The double nearest to a natural number, ties to even, and its shortest decimal, as ECMAScript writes it. -/

namespace IbexHarness.Lib.Double

open Nat

def exponent (n : Nat) : Nat := n.log2 - 52

def round (n : Nat) : Nat :=
  let e := exponent n
  let q := n / 2 ^ e
  if 2 ^ e < 2 * (n % 2 ^ e) ∨ (2 * (n % 2 ^ e) = 2 ^ e ∧ q % 2 = 1) then (q + 1) * 2 ^ e else q * 2 ^ e

/-- The decimal with zeros for its last `j` digits that is read as the double `m`, the nearest if there are two. -/
def shortestAt (m j : Nat) : Option Nat :=
  let s := m / 10 ^ j
  let low := s * 10 ^ j
  let high := (s + 1) * 10 ^ j
  if round low = m then
    if round high = m ∧ (high - m < m - low ∨ (high - m = m - low ∧ s % 2 = 1)) then some high else some low
  else if round high = m then some high
  else none

def shortest (m : Nat) : Nat := ((List.range 21).reverse.findSome? (shortestAt m)).getD m

/-- ECMAScript's decimal of the number `n`, below `10 ^ 21` where it has no exponent. -/
def es6 (n : Nat) : Nat := shortest (round n)

variable {n : Nat}

theorem exponent_of_lt (h : n < 2 ^ 53) : exponent n = 0 := by
  rcases Nat.eq_zero_or_pos n with rfl | hn
  · rfl
  · have hlog : n.log2 < 53 := (log2_lt hn.ne').mpr h
    unfold exponent
    omega

theorem div_lt (n : Nat) : n / 2 ^ exponent n < 2 ^ 53 := by
  rcases lt_or_ge n (2 ^ 53) with h | h
  · rwa [exponent_of_lt h, Nat.pow_zero, Nat.div_one]
  · have hn : n ≠ 0 := by
      rintro rfl
      exact absurd h (by decide)
    have hlog : 53 ≤ n.log2 := (le_log2 hn).mpr h
    refine Nat.div_lt_of_lt_mul ?_
    rw [← Nat.pow_add, exponent, show n.log2 - 52 + 53 = n.log2 + 1 by omega]
    exact Nat.lt_log2_self

theorem round_of_dvd (h : 2 ^ exponent n ∣ n) : round n = n := by
  have hmod : n % 2 ^ exponent n = 0 := Nat.mod_eq_zero_of_dvd h
  have hpos := Nat.two_pow_pos (exponent n)
  have hno : ¬(2 ^ exponent n < 2 * (n % 2 ^ exponent n) ∨
      (2 * (n % 2 ^ exponent n) = 2 ^ exponent n ∧ n / 2 ^ exponent n % 2 = 1)) := by
    rw [hmod]
    omega
  rw [round, if_neg hno, Nat.div_mul_cancel h]

theorem round_of_lt (h : n < 2 ^ 53) : round n = n :=
  round_of_dvd (by rw [exponent_of_lt h, pow_zero]; exact one_dvd n)

theorem round_eq (n : Nat) : ∃ k, k ≤ 2 ^ 53 ∧ n / 2 ^ exponent n ≤ k ∧ k ≤ n / 2 ^ exponent n + 1 ∧
    round n = k * 2 ^ exponent n := by
  have hq := div_lt n
  simp only [round]
  split_ifs
  · exact ⟨_, hq, le_succ _, le_rfl, rfl⟩
  · exact ⟨_, hq.le, le_rfl, le_succ _, rfl⟩

theorem round_significand {k e : Nat} (hk : k ≤ 2 ^ 53) : round (k * 2 ^ e) = k * 2 ^ e := by
  refine round_of_dvd ?_
  rcases Nat.eq_zero_or_pos k with rfl | hpos
  · simp
  · have hn : k * 2 ^ e ≠ 0 := Nat.mul_ne_zero hpos.ne' (Nat.two_pow_pos e).ne'
    have hle : k * 2 ^ e ≤ 2 ^ (53 + e) := by
      rw [pow_add]
      exact mul_le_mul_right _ hk
    rcases lt_or_ge (k * 2 ^ e) (2 ^ (53 + e)) with hlt | hge
    · have hlog : (k * 2 ^ e).log2 < 53 + e := (log2_lt hn).mpr hlt
      have hexp : exponent (k * 2 ^ e) ≤ e := by
        unfold exponent
        omega
      exact (pow_dvd_pow 2 hexp).trans (dvd_mul_left _ _)
    · rw [le_antisymm hle hge, exponent, log2_two_pow]
      exact pow_dvd_pow 2 (by omega)

@[simp] theorem round_round (n : Nat) : round (round n) = round n := by
  obtain ⟨k, hk, -, -, heq⟩ := round_eq n
  rw [heq]
  exact round_significand hk

theorem pow_exponent_le (h : 2 ^ 53 ≤ n) : 2 ^ exponent n * 2 ^ 52 ≤ n := by
  have hn : n ≠ 0 := by
    rintro rfl
    exact absurd h (by decide)
  have hlog : 53 ≤ n.log2 := (le_log2 hn).mpr h
  rw [← pow_add, exponent, show n.log2 - 52 + 52 = n.log2 by omega]
  exact log2_self_le hn

theorem le_two_mul_round (n : Nat) : n ≤ 2 * round n := by
  rcases lt_or_ge n (2 ^ 53) with h | h
  · rw [round_of_lt h]
    omega
  · obtain ⟨k, -, hk, -, heq⟩ := round_eq n
    have hlow : n / 2 ^ exponent n * 2 ^ exponent n ≤ round n := heq ▸ mul_le_mul_right _ hk
    have hmod := Nat.mod_lt n (Nat.two_pow_pos (exponent n))
    have hdiv := div_add_mod' n (2 ^ exponent n)
    have hexp := pow_exponent_le h
    omega

theorem round_le_two_mul (n : Nat) : round n ≤ 2 * n := by
  rcases lt_or_ge n (2 ^ 53) with h | h
  · rw [round_of_lt h]
    omega
  · obtain ⟨k, -, -, hk, heq⟩ := round_eq n
    have hhigh : round n ≤ (n / 2 ^ exponent n + 1) * 2 ^ exponent n := heq ▸ mul_le_mul_right _ hk
    have hdiv := div_mul_le_self n (2 ^ exponent n)
    have hexp := pow_exponent_le h
    rw [add_mul, one_mul] at hhigh
    omega

theorem le_round (h : 2 ^ 53 ≤ n) : 2 ^ 53 ≤ round n := by
  have hn : n ≠ 0 := by
    rintro rfl
    exact absurd h (by decide)
  have hlog : 53 ≤ n.log2 := (le_log2 hn).mpr h
  obtain ⟨k, -, hk, -, heq⟩ := round_eq n
  have hq : 2 ^ 52 ≤ n / 2 ^ exponent n := by
    rw [Nat.le_div_iff_mul_le (Nat.two_pow_pos _), Nat.mul_comm]
    exact pow_exponent_le h
  have htwo : 2 ≤ 2 ^ exponent n := by
    calc 2 = 2 ^ 1 := rfl
      _ ≤ 2 ^ exponent n := Nat.pow_le_pow_right (by decide) (by unfold exponent; omega)
  calc 2 ^ 53 = 2 ^ 52 * 2 := rfl
    _ ≤ k * 2 ^ exponent n := Nat.mul_le_mul (hq.trans hk) htwo
    _ = round n := heq.symm

theorem round_shortestAt {m j c : Nat} (h : shortestAt m j = some c) : round c = m := by
  simp only [shortestAt] at h
  split_ifs at h with hlow hhigh hhigh
  · exact Option.some.inj h ▸ hhigh.1
  · exact Option.some.inj h ▸ hlow
  · exact Option.some.inj h ▸ hhigh

theorem round_shortest {m : Nat} (hm : round m = m) : round (shortest m) = m := by
  unfold shortest
  cases hc : (List.range 21).reverse.findSome? (shortestAt m) with
  | none => exact hm
  | some c =>
    obtain ⟨j, -, hj⟩ := List.exists_of_findSome?_eq_some hc
    exact round_shortestAt hj

@[simp] theorem round_es6 (n : Nat) : round (es6 n) = round n := round_shortest (round_round n)

@[simp] theorem es6_es6 (n : Nat) : es6 (es6 n) = es6 n := by
  rw [es6, round_es6, es6]

theorem es6_of_lt (h : n < 2 ^ 53) : es6 n = n := by
  have hround : round (es6 n) = n := by rw [round_es6, round_of_lt h]
  rcases lt_or_ge (es6 n) (2 ^ 53) with hlt | hge
  · rwa [round_of_lt hlt] at hround
  · have hle := le_round hge
    omega

theorem es6_le (n : Nat) : es6 n ≤ 4 * n := by
  have h₁ := le_two_mul_round (es6 n)
  have h₂ := round_le_two_mul n
  rw [round_es6] at h₁
  omega

example : es6 (2 ^ 53 + 1) = 2 ^ 53 := by decide +kernel

example : es6 (2 ^ 63 - 1) = 9223372036854776000 := by decide +kernel

end IbexHarness.Lib.Double
