import Mathlib.Data.List.Induction

/-! A trace of events, some of which grant a token and some of which settle one. -/

namespace IbexHarness.Lib.Slot

variable {ε ρ : Type*} [DecidableEq ρ] (granted settled : ε → Option ρ)

def step (held : Option ρ) (e : ε) : Option (Option ρ) :=
  match granted e, settled e with
  | none, none => some held
  | some r, none => if held = none then some (some r) else none
  | none, some r => if held = some r then some none else none
  | some _, some _ => none

def run (held : Option ρ) (t : List ε) : Option (Option ρ) := t.foldlM (step granted settled) held

variable {granted settled}

theorem run_append (held : Option ρ) (t u : List ε) :
    run granted settled held (t ++ u) = (run granted settled held t).bind fun held' => run granted settled held' u :=
  List.foldlM_append

theorem run_concat {held held' : Option ρ} {t : List ε} (h : run granted settled held t = some held') (e : ε) :
    run granted settled held (t ++ [e]) = step granted settled held' e := by
  rw [run_append, h]
  exact bind_pure _

section
variable {held : Option ρ} {t : List ε} {e : ε} {r : ρ}

theorem run_concat_neutral (h : run granted settled none t = some held) (hg : granted e = none)
    (hs : settled e = none) : run granted settled none (t ++ [e]) = some held := by
  simp [run_concat h, step, hg, hs]

theorem run_concat_grant (h : run granted settled none t = some none) (hg : granted e = some r)
    (hs : settled e = none) : run granted settled none (t ++ [e]) = some (some r) := by
  simp [run_concat h, step, hg, hs]

theorem run_concat_settle (h : run granted settled none t = some (some r)) (hg : granted e = none)
    (hs : settled e = some r) : run granted settled none (t ++ [e]) = some none := by
  simp [run_concat h, step, hg, hs]

end

theorem granted_eq_settled_append {t : List ε} : ∀ {held : Option ρ}, run granted settled none t = some held →
      t.filterMap granted = t.filterMap settled ++ held.toList := by
  induction t using List.reverseRecOn with
  | nil =>
    intro held h
    cases Option.some.inj h
    rfl
  | append_singleton t e ih =>
    intro held h
    rw [run_append] at h
    obtain ⟨held', ht, he⟩ := Option.bind_eq_some_iff.1 h
    have hstep : step granted settled held' e = some held := by
      rw [← he]
      exact (bind_pure _).symm
    simp only [step] at hstep
    rw [List.filterMap_append, List.filterMap_append, ih ht]
    split at hstep
    · cases hstep
      simp [*]
    · split at hstep <;> cases hstep
      simp [*]
    · split at hstep <;> cases hstep
      simp [*]
    · cases hstep

theorem exists_held_of_isPrefix {t u : List ε} {held : Option ρ} (h : run granted settled none u = some held)
    (hpre : t <+: u) : ∃ o : Option ρ, t.filterMap granted = t.filterMap settled ++ o.toList := by
  obtain ⟨v, rfl⟩ := hpre
  rw [run_append] at h
  obtain ⟨o, ho, _⟩ := Option.bind_eq_some_iff.1 h
  exact ⟨o, granted_eq_settled_append ho⟩

end IbexHarness.Lib.Slot
