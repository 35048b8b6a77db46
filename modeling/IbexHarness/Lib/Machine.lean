import Mathlib.Data.List.Basic
import Mathlib.Logic.Relation

/-! A machine has initial states and a partial step function; all nondeterminism is in the action. -/

namespace IbexHarness.Lib

universe u v w

section Guard

variable {σ : Type u} {c : Prop} [Decidable c] {s t : σ}

theorem of_ite_some (h : (if c then some s else none) = some t) : c ∧ s = t := by
  simpa using h

theorem of_ite_none (h : (if c then none else some s) = some t) : ¬c ∧ s = t := by
  simpa using h

end Guard

namespace Except

variable {ε α β : Type}

theorem bind_eq_ok {x : Except ε α} {f : α → Except ε β} {b : β} :
    x >>= f = .ok b ↔ ∃ a, x = .ok a ∧ f a = .ok b := by
  cases x with
  | error | ok => simp [bind, Except.bind]

theorem seq_eq_ok {x : Except ε Unit} {y : Except ε β} {b : β} :
    (x >>= fun _ => y) = .ok b ↔ x = .ok () ∧ y = .ok b := by
  rw [bind_eq_ok]
  exact ⟨fun ⟨_, hx, hy⟩ => ⟨hx, hy⟩, fun ⟨hx, hy⟩ => ⟨(), hx, hy⟩⟩

theorem check_eq_ok {p : Prop} [Decidable p] {e : ε} {x : Except ε β} {b : β} :
    (if p then .error e else x) = .ok b ↔ ¬p ∧ x = .ok b := by
  by_cases hp : p <;> simp [hp]

end Except

structure Machine (σ : Type u) (α : Type v) where
  init : σ → Prop
  step : σ → α → Option σ

namespace Machine

variable {σ : Type u} {α : Type v} {M : Machine σ α}

def run (M : Machine σ α) : σ → List α → Option σ
  | s, [] => some s
  | s, a :: as => (M.step s a).bind fun s' => M.run s' as

def Later (M : Machine σ α) (s s' : σ) : Prop := ∃ as, M.run s as = some s'

def Reachable (M : Machine σ α) (s : σ) : Prop := ∃ s₀, M.init s₀ ∧ M.Later s₀ s

variable {s s' : σ} {a : α} {P : σ → Prop}

@[simp] theorem run_nil (s : σ) : M.run s [] = some s := rfl

theorem run_cons_eq_some {as : List α} :
    M.run s (a :: as) = some s' ↔ ∃ t, M.step s a = some t ∧ M.run t as = some s' := by
  simp [run, Option.bind_eq_some_iff]

theorem run_append {as bs : List α} :
    M.run s (as ++ bs) = some s' ↔ ∃ t, M.run s as = some t ∧ M.run t bs = some s' := by
  induction as generalizing s with
  | nil => simp
  | cons a as ih =>
    simp only [List.cons_append, run_cons_eq_some, ih]
    constructor
    · rintro ⟨t, ht, u, hu, hs⟩
      exact ⟨u, ⟨t, ht, hu⟩, hs⟩
    · rintro ⟨u, ⟨t, ht, hu⟩, hs⟩
      exact ⟨t, ht, u, hu, hs⟩

theorem Later.refl (s : σ) : M.Later s s := ⟨[], rfl⟩

theorem Later.trans {t u : σ} (h₁ : M.Later s t) (h₂ : M.Later t u) : M.Later s u := by
  obtain ⟨as, has⟩ := h₁
  obtain ⟨bs, hbs⟩ := h₂
  exact ⟨as ++ bs, run_append.mpr ⟨t, has, hbs⟩⟩

theorem Later.single (h : M.step s a = some s') : M.Later s s' :=
  ⟨[a], by simp [run, h]⟩

theorem Reachable.of_init (h : M.init s) : M.Reachable s := ⟨s, h, Later.refl s⟩

theorem Reachable.later (h : M.Reachable s) (hs : M.Later s s') : M.Reachable s' := by
  obtain ⟨s₀, h₀, hl⟩ := h
  exact ⟨s₀, h₀, hl.trans hs⟩

theorem Reachable.step (h : M.Reachable s) (hs : M.step s a = some s') : M.Reachable s' :=
  h.later (Later.single hs)

theorem Later.stable (hstep : ∀ s a s', P s → M.step s a = some s' → P s') (h : M.Later s s') (hp : P s) : P s' := by
  obtain ⟨as, has⟩ := h
  induction as generalizing s with
  | nil =>
    simp only [run_nil, Option.some.injEq] at has
    exact has ▸ hp
  | cons a as ih =>
    obtain ⟨t, ht, hrun⟩ := run_cons_eq_some.mp has
    exact ih (hstep s a t hp ht) hrun

theorem Reachable.invariant (hinit : ∀ s, M.init s → P s)
    (hstep : ∀ s a s', P s → M.step s a = some s' → P s') (h : M.Reachable s) : P s := by
  obtain ⟨s₀, h₀, hl⟩ := h
  exact hl.stable hstep (hinit s₀ h₀)

theorem Later.stable_of {I : σ → Prop} (hI : ∀ s, M.Reachable s → I s)
    (hstep : ∀ s a s', I s → P s → M.step s a = some s' → P s')
    (hr : M.Reachable s) (h : M.Later s s') (hp : P s) : P s' := by
  have hboth : M.Reachable s' ∧ P s' := by
    refine h.stable (P := fun s => M.Reachable s ∧ P s) ?_ ⟨hr, hp⟩
    rintro s a s' ⟨hr, hp⟩ hs
    exact ⟨hr.step hs, hstep s a s' (hI s hr) hp hs⟩
  exact hboth.2

variable {τ : Type w} {β : Type*} {N : Machine τ β}

/-- `abs` maps each step of `M` from a state with `I` to a run of `N` (one step, or none when `M`
only changes what `abs` forgets). -/
structure Simulates (M : Machine σ α) (N : Machine τ β) (I : σ → Prop) (abs : σ → τ) : Prop where
  init : ∀ s, M.init s → N.init (abs s)
  inv_init : ∀ s, M.init s → I s
  inv_step : ∀ s a s', I s → M.step s a = some s' → I s'
  step : ∀ s a s', I s → M.step s a = some s' → N.Later (abs s) (abs s')

variable {I : σ → Prop} {abs : σ → τ} {s s' : σ} {C : σ → α → Bool}

section

variable (h : Simulates M N I abs) (hr : M.Reachable s)
include h hr

theorem Simulates.inv : I s :=
  hr.invariant h.inv_init h.inv_step

theorem Simulates.later (hl : M.Later s s') : N.Later (abs s) (abs s') := by
  have hboth : M.Reachable s' ∧ N.Later (abs s) (abs s') := by
    refine hl.stable (P := fun t => M.Reachable t ∧ N.Later (abs s) (abs t)) ?_ ⟨hr, .refl _⟩
    rintro t a t' ⟨ht, hlt⟩ hs
    exact ⟨ht.step hs, hlt.trans (h.step t a t' (h.inv ht) hs)⟩
  exact hboth.2

theorem Simulates.reachable : N.Reachable (abs s) := by
  obtain ⟨s₀, h₀, hl⟩ := hr
  exact ⟨abs s₀, h.init s₀ h₀, h.later (.of_init h₀) hl⟩

end

/-! ## Runs whose steps all meet a condition -/

def restrict (M : Machine σ α) (C : σ → α → Bool) : Machine σ α where
  init := M.init
  step s a := if C s a then M.step s a else none

theorem restrict_step_eq_some : (M.restrict C).step s a = some s' ↔ C s a = true ∧ M.step s a = some s' := by
  simp [restrict]

theorem Later.of_restrict (h : (M.restrict C).Later s s') : M.Later s s' := by
  refine h.stable (P := fun t => M.Later s t) ?_ (.refl s)
  intro t a t' hl hs
  exact hl.trans (.single (restrict_step_eq_some.mp hs).2)

theorem Reachable.of_restrict (h : (M.restrict C).Reachable s) : M.Reachable s := by
  obtain ⟨s₀, h₀, hl⟩ := h
  exact ⟨s₀, h₀, hl.of_restrict⟩

end Machine

end IbexHarness.Lib

namespace IbexHarness.Lib.Parties

variable {α : Type*} {l : List α} {i : Nat} {a : α}

theorem getElem?_set (h : l[i]? = some a) (b : α) (j : Nat) : (l.set i b)[j]? = if j = i then some b else l[j]? := by
  have hlt : i < l.length := (List.getElem?_eq_some_iff.mp h).1
  by_cases hj : j = i
  · subst hj
    simp [hlt]
  · simp [Ne.symm hj, hj]

theorem forall_set {P : Nat → α → Prop} (h : l[i]? = some a) {b : α} (hb : P i b)
    (hl : ∀ j x, j ≠ i → l[j]? = some x → P j x) : ∀ (j : Nat) (x : α), (l.set i b)[j]? = some x → P j x := by
  intro j x hj
  rw [getElem?_set h] at hj
  split at hj
  case isTrue heq =>
    cases hj
    exact heq ▸ hb
  case isFalse hne => exact hl j x hne hj

theorem forall_concat {P : Nat → α → Prop} {b : α} (hb : P l.length b)
    (hl : ∀ (j : Nat) (x : α), l[j]? = some x → P j x) :
    ∀ (j : Nat) (x : α), (l ++ [b])[j]? = some x → P j x := by
  intro j x hj
  rcases Nat.lt_trichotomy j l.length with hlt | rfl | hgt
  · rw [List.getElem?_append_left hlt] at hj
    exact hl j x hj
  · rw [List.getElem?_concat_length] at hj
    cases hj
    exact hb
  · rw [List.getElem?_eq_none (by simp; omega)] at hj
    cases hj

theorem getElem?_concat {j : Nat} {x : α} (b : α) (h : l[j]? = some x) : (l ++ [b])[j]? = some x := by
  rw [List.getElem?_append_left (List.getElem?_eq_some_iff.mp h).1, h]

end IbexHarness.Lib.Parties
