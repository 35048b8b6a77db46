import Mathlib.Order.Lattice

/-! A key holds a value until an instant; after it the key is absent. -/

namespace IbexHarness.Lib

universe u v w

structure Expiring (ν : Type u) (τ : Type v) where
  value : ν
  expiresAt : τ

/-- A key that expires at an instant is there before it, and not at it. -/
def live {τ : Type v} [LT τ] [DecidableLT τ] (now expiresAt : τ) : Bool := now < expiresAt

@[simp] theorem live_iff {τ : Type v} [LT τ] [DecidableLT τ] {now expiresAt : τ} :
    live now expiresAt = true ↔ now < expiresAt :=
  decide_eq_true_iff

structure KeyStore (κ : Type w) (ν : Type u) (τ : Type v) where
  entry : κ → Option (Expiring ν τ)
  rev : κ → Nat

namespace KeyStore

variable {κ : Type w} {ν : Type u} {τ : Type v}

def empty : KeyStore κ ν τ := ⟨fun _ => none, fun _ => 0⟩

section Writes

variable [DecidableEq κ]

def put (s : KeyStore κ ν τ) (k : κ) (e : Option (Expiring ν τ)) : KeyStore κ ν τ where
  entry := Function.update s.entry k e
  rev := Function.update s.rev k (s.rev k + 1)

def set (s : KeyStore κ ν τ) (k : κ) (v : ν) (expiresAt : τ) : KeyStore κ ν τ := s.put k (some ⟨v, expiresAt⟩)

def del (s : KeyStore κ ν τ) (k : κ) : KeyStore κ ν τ := s.put k none

@[simp] theorem entry_put_self (s : KeyStore κ ν τ) (k : κ) (e : Option (Expiring ν τ)) :
    (s.put k e).entry k = e := by
  simp [put]

@[simp] theorem entry_put_of_ne (s : KeyStore κ ν τ) {k k' : κ} (e : Option (Expiring ν τ)) (h : k' ≠ k) :
    (s.put k e).entry k' = s.entry k' := by
  simp [put, h]

@[simp] theorem rev_put_self (s : KeyStore κ ν τ) (k : κ) (e : Option (Expiring ν τ)) :
    (s.put k e).rev k = s.rev k + 1 := by
  simp [put]

@[simp] theorem rev_put_of_ne (s : KeyStore κ ν τ) {k k' : κ} (e : Option (Expiring ν τ)) (h : k' ≠ k) :
    (s.put k e).rev k' = s.rev k' := by
  simp [put, h]

theorem rev_le_put (s : KeyStore κ ν τ) (k k' : κ) (e : Option (Expiring ν τ)) : s.rev k' ≤ (s.put k e).rev k' := by
  by_cases h : k' = k
  · subst h
    simp
  · simp [h]

end Writes

section Reads

variable [LinearOrder τ]

def get (s : KeyStore κ ν τ) (now : τ) (k : κ) : Option ν :=
  match s.entry k with
  | some e => if live now e.expiresAt then some e.value else none
  | none => none

def setNX [DecidableEq κ] (s : KeyStore κ ν τ) (now : τ) (k : κ) (v : ν) (expiresAt : τ) : Option (KeyStore κ ν τ) :=
  match s.get now k with
  | some _ => none
  | none => some (s.set k v expiresAt)

variable {s : KeyStore κ ν τ} {now : τ} {k : κ}

theorem get_eq_some {v : ν} : s.get now k = some v ↔ ∃ e, s.entry k = some e ∧ now < e.expiresAt ∧ e.value = v := by
  unfold get
  cases s.entry k with
  | none => simp
  | some e =>
    by_cases h : now < e.expiresAt
    · simp [h]
    · simp [h]

theorem get_ne_none {e : Expiring ν τ} (he : s.entry k = some e) (h : now < e.expiresAt) : s.get now k ≠ none := by
  simp [get, he, h]

theorem setNX_eq_some [DecidableEq κ] {s' : KeyStore κ ν τ} {v : ν} {expiresAt : τ} :
    s.setNX now k v expiresAt = some s' ↔ s.get now k = none ∧ s' = s.set k v expiresAt := by
  unfold setNX
  cases s.get now k with
  | none => simp [eq_comm]
  | some w => simp

end Reads

end KeyStore

end IbexHarness.Lib
