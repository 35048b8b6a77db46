import Mathlib.Logic.Function.Basic

/-! A counter per key that an invalidation advances. -/

namespace IbexHarness.Lib

universe u

/-- The counters, and for each key the steps at which it was invalidated. -/
structure Generations (κ : Type u) where
  gen : κ → Nat
  bumps : κ → List Nat

structure Stamp where
  gen : Nat
  taken : Nat

namespace Generations

variable {κ : Type u} [DecidableEq κ] {g : Generations κ} {j k : κ} {s : Stamp} {now : Nat}

def zero : Generations κ := ⟨fun _ => 0, fun _ => []⟩

def bump (g : Generations κ) (k : κ) (now : Nat) : Generations κ where
  gen := Function.update g.gen k (g.gen k + 1)
  bumps := Function.update g.bumps k (now :: g.bumps k)

def drop (g : Generations κ) (k : κ) : Generations κ := { g with gen := Function.update g.gen k 0 }

def Fresh (g : Generations κ) (k : κ) (s : Stamp) : Prop :=
  s.gen ≤ g.gen k ∧ (s.gen = g.gen k → ∀ b ∈ g.bumps k, b < s.taken)

omit [DecidableEq κ] in
theorem fresh_of_read (h : ∀ b ∈ g.bumps k, b < now) : g.Fresh k ⟨g.gen k, now⟩ := ⟨Nat.le_refl _, fun _ => h⟩

theorem Fresh.bump (h : g.Fresh k s) : (g.bump j now).Fresh k s := by
  by_cases hk : k = j
  · subst hk
    have hlt : s.gen < (g.bump k now).gen k := by simpa [Generations.bump] using Nat.lt_succ_of_le h.1
    exact ⟨Nat.le_of_lt hlt, fun heq => absurd heq (Nat.ne_of_lt hlt)⟩
  · simpa [Fresh, Generations.bump, hk] using h

theorem Fresh.drop_of_ne (h : g.Fresh k s) (hk : k ≠ j) : (g.drop j).Fresh k s := by
  simpa [Fresh, Generations.drop, hk] using h

theorem drop_eq_self (h : g.gen k = 0) : g.drop k = g := by
  simp [drop, ← h]

theorem mem_bumps_bump {b : Nat} : b ∈ (g.bump j now).bumps k ↔ (k = j ∧ b = now) ∨ b ∈ g.bumps k := by
  by_cases hk : k = j
  · subst hk
    simp [Generations.bump]
  · simp [Generations.bump, hk]

def Before (g : Generations κ) (n : Nat) : Prop := ∀ k, ∀ b ∈ g.bumps k, b < n

/-- The invalidations of `k` before step `seen` came before step `began`. -/
def Covers (g : Generations κ) (k : κ) (seen began : Nat) : Prop := ∀ b ∈ g.bumps k, b < seen → b < began

theorem Before.bump (h : g.Before now) : (g.bump j now).Before (now + 1) := by
  intro k b hb
  rcases mem_bumps_bump.mp hb with ⟨-, rfl⟩ | hb
  · exact Nat.lt_succ_self b
  · exact Nat.lt_succ_of_lt (h k b hb)

theorem Covers.bump {seen began : Nat} (h : g.Covers k seen began) (hseen : seen < now) :
    (g.bump j now).Covers k seen began := by
  intro b hb hlt
  rcases mem_bumps_bump.mp hb with ⟨-, rfl⟩ | hb
  · exact absurd hlt (Nat.lt_asymm hseen)
  · exact h b hb hlt

omit [DecidableEq κ] in
theorem Fresh.covers {seen began : Nat} (h : g.Fresh k s) (hgen : s.gen = g.gen k) (htaken : s.taken < began) :
    g.Covers k seen began :=
  fun b hb _ => Nat.lt_trans (h.2 hgen b hb) htaken

end Generations

end IbexHarness.Lib
