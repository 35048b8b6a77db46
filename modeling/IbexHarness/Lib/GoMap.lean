import Mathlib.Data.List.Nodup

/-! A Go map as a list of its entries, in the order a `range` happened to take. -/

namespace IbexHarness.Lib

open List

universe u v w

structure GoMap (κ : Type u) (ν : Type v) where
  entries : List (κ × ν)
  nodup : (entries.map Prod.fst).Nodup

namespace GoMap

variable {κ : Type u} {ν : Type v}

section Range

variable {σ : Type w} {β : Type*}

def range (m : GoMap κ ν) (body : σ → κ → ν → σ) (s : σ) : σ := m.entries.foldl (fun s e => body s e.1 e.2) s

theorem foldl_of_notMem {body : σ → κ → ν → σ} {obs : σ → β} {k : κ}
    (hother : ∀ s k' v, k' ≠ k → obs (body s k' v) = obs s)
    {entries : List (κ × ν)} (hk : k ∉ entries.map Prod.fst) (s : σ) :
    obs (entries.foldl (fun s e => body s e.1 e.2) s) = obs s := by
  induction entries generalizing s with
  | nil => rfl
  | cons e entries ih =>
    rw [map_cons, mem_cons, not_or] at hk
    rw [foldl_cons, ih hk.2, hother s e.1 e.2 (Ne.symm hk.1)]

variable [DecidableEq κ]

def lookupIn (entries : List (κ × ν)) (k : κ) : Option ν := (entries.find? fun e => e.1 = k).map Prod.snd

def lookup (m : GoMap κ ν) (k : κ) : Option ν := lookupIn m.entries k

theorem lookupIn_cons (e : κ × ν) (entries : List (κ × ν)) (k : κ) :
    lookupIn (e :: entries) k = if e.1 = k then some e.2 else lookupIn entries k := by
  by_cases hk : e.1 = k <;> simp [lookupIn, hk]

theorem obs_range (m : GoMap κ ν) (k : κ) {body : σ → κ → ν → σ} (obs : σ → β) (write : ν → β → β)
    (hother : ∀ s k' v, k' ≠ k → obs (body s k' v) = obs s)
    (hown : ∀ s v, obs (body s k v) = write v (obs s)) (s : σ) :
    obs (m.range body s) = (m.lookup k).elim (obs s) fun v => write v (obs s) := by
  obtain ⟨entries, hnodup⟩ := m
  unfold range lookup
  induction entries generalizing s with
  | nil => rfl
  | cons e entries ih =>
    rw [map_cons, nodup_cons] at hnodup
    rw [foldl_cons, lookupIn_cons]
    by_cases hk : e.1 = k
    · subst hk
      rw [foldl_of_notMem hother hnodup.1, if_pos rfl, Option.elim_some]
      exact hown s e.2
    · rw [if_neg hk, ← hother s e.1 e.2 hk]
      exact ih (body s e.1 e.2) hnodup.2

end Range

end GoMap

end IbexHarness.Lib
