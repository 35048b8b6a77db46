import IbexHarness.Lib.Machine
import Mathlib.Data.List.Nodup

/-! A cell has an identity, a version counter and a status. -/

namespace IbexHarness.Lib.Fence

open List Option

universe u v

inductive Status (β : Type v) where
  | free
  | held
  | closed (b : β)

structure Cell (ι : Type u) (β : Type v) where
  id : ι
  ver : Nat
  status : Status β

/-- The cell, the identities used so far, the tokens issued and the settlements made. -/
structure State (ι : Type u) (β : Type v) where
  cell : Option (Cell ι β)
  used : List ι
  issued : List (ι × Nat)
  settled : List ((ι × Nat) × β)

inductive Act (ι : Type u) (β : Type v) where
  | create (i : ι)
  | grant
  | settle (b : β)
  | revoke
  | drop

variable {ι : Type u} {β : Type v}

def step [DecidableEq ι] (bump : Nat) (regrant : Bool) (s : State ι β) : Act ι β → Option (State ι β)
  | .create i =>
    match s.cell with
    | none => if i ∈ s.used then none else some { s with cell := some ⟨i, 0, .free⟩, used := i :: s.used }
    | some _ => none
  | .grant =>
    match s.cell with
    | some ⟨_, _, .closed _⟩ => if regrant then grantCell s else none
    | _ => grantCell s
  | .settle b =>
    match s.cell with
    | some ⟨i, v, .held⟩ =>
      some { s with cell := some ⟨i, v + bump, .closed b⟩, settled := ((i, v), b) :: s.settled }
    | _ => none
  | .revoke =>
    match s.cell with
    | some ⟨i, v, .held⟩ => some { s with cell := some ⟨i, v + bump, .free⟩ }
    | _ => none
  | .drop =>
    match s.cell with
    | some ⟨_, _, .held⟩ => some { s with cell := none }
    | _ => none
where
  grantCell (s : State ι β) : Option (State ι β) :=
    match s.cell with
    | some ⟨i, v, _⟩ => some { s with cell := some ⟨i, v + 1, .held⟩, issued := (i, v + 1) :: s.issued }
    | none => none

def machine [DecidableEq ι] (bump : Nat) (regrant : Bool) : Machine (State ι β) (Act ι β) where
  init s := s = ⟨none, [], [], []⟩
  step := step bump regrant

def Holds (s : State ι β) (tok : ι × Nat) : Prop := s.cell = some ⟨tok.1, tok.2, .held⟩

variable {bump : Nat} {regrant : Bool} {s s' : State ι β} {a : Act ι β}

theorem Holds.unique {tok tok' : ι × Nat} (h : Holds s tok) (h' : Holds s tok') : tok = tok' := by
  simp only [Holds] at h h'
  rw [h] at h'
  simp only [some.injEq, Cell.mk.injEq, and_true] at h'
  exact Prod.ext h'.1 h'.2

theorem step_cases [DecidableEq ι] (h : step bump regrant s a = some s') :
    (∃ i, a = .create i ∧ s.cell = none ∧ i ∉ s.used ∧
      s' = { s with cell := some ⟨i, 0, .free⟩, used := i :: s.used }) ∨
    (∃ i v st, a = .grant ∧ s.cell = some ⟨i, v, st⟩ ∧ (∀ b, st = .closed b → regrant = true) ∧
      s' = { s with cell := some ⟨i, v + 1, .held⟩, issued := (i, v + 1) :: s.issued }) ∨
    (∃ i v b, a = .settle b ∧ s.cell = some ⟨i, v, .held⟩ ∧
      s' = { s with cell := some ⟨i, v + bump, .closed b⟩, settled := ((i, v), b) :: s.settled }) ∨
    (∃ i v, a = .revoke ∧ s.cell = some ⟨i, v, .held⟩ ∧ s' = { s with cell := some ⟨i, v + bump, .free⟩ }) ∨
    (∃ i v, a = .drop ∧ s.cell = some ⟨i, v, .held⟩ ∧ s' = { s with cell := none }) := by
  obtain ⟨cell, used, issued, settled⟩ := s
  cases a with
  | create i =>
    rcases cell with _ | ⟨j, v, st⟩
    · simp only [step] at h
      split at h
      · cases h
      · exact .inl ⟨i, rfl, rfl, ‹_›, (some.inj h).symm⟩
    · cases h
  | grant =>
    rcases cell with _ | ⟨j, v, _ | _ | b⟩
    · cases h
    · exact .inr (.inl ⟨j, v, .free, rfl, rfl, nofun, (some.inj h).symm⟩)
    · exact .inr (.inl ⟨j, v, .held, rfl, rfl, nofun, (some.inj h).symm⟩)
    · simp only [step] at h
      split at h
      · exact .inr (.inl ⟨j, v, .closed b, rfl, rfl, fun _ _ => ‹_›, (some.inj h).symm⟩)
      · cases h
  | settle b =>
    rcases cell with _ | ⟨j, v, _ | _ | _⟩
    case some.held => exact .inr (.inr (.inl ⟨j, v, b, rfl, rfl, (some.inj h).symm⟩))
    all_goals cases h
  | revoke =>
    rcases cell with _ | ⟨j, v, _ | _ | _⟩
    case some.held => exact .inr (.inr (.inr (.inl ⟨j, v, rfl, rfl, (some.inj h).symm⟩)))
    all_goals cases h
  | drop =>
    rcases cell with _ | ⟨j, v, _ | _ | _⟩
    case some.held => exact .inr (.inr (.inr (.inr ⟨j, v, rfl, rfl, (some.inj h).symm⟩)))
    all_goals cases h

section Moves

variable [DecidableEq ι] {i : ι} {v : Nat}

theorem later_create (hc : s.cell = none) (hu : i ∉ s.used) :
    (machine bump regrant).Later s { s with cell := some ⟨i, 0, .free⟩, used := i :: s.used } :=
  .single (a := .create i) (by simp [machine, step, hc, hu])

theorem later_grant {st : Status β} (hc : s.cell = some ⟨i, v, st⟩) (hr : ∀ b, st = .closed b → regrant = true) :
    (machine bump regrant).Later s
      { s with cell := some ⟨i, v + 1, .held⟩, issued := (i, v + 1) :: s.issued } := by
  refine .single (a := .grant) ?_
  cases st with
  | free | held => simp [machine, step, step.grantCell, hc]
  | closed b => simp [machine, step, step.grantCell, hc, hr b rfl]

theorem later_settle (h : Holds s (i, v)) (b : β) : (machine bump regrant).Later s
      { s with cell := some ⟨i, v + bump, .closed b⟩, settled := ((i, v), b) :: s.settled } :=
  .single (a := .settle b) (by simp only [Holds] at h; simp [machine, step, h])

theorem later_revoke (h : Holds s (i, v)) :
    (machine bump regrant).Later s { s with cell := some ⟨i, v + bump, .free⟩ } :=
  .single (a := .revoke) (by simp only [Holds] at h; simp [machine, step, h])

theorem later_drop (h : Holds s (i, v)) : (machine bump regrant).Later s { s with cell := none } :=
  .single (a := .drop) (by simp only [Holds] at h; simp [machine, step, h])

end Moves

structure Inv (bump : Nat) (s : State ι β) : Prop where
  cell_used : ∀ c, s.cell = some c → c.id ∈ s.used
  issued_used : ∀ tok ∈ s.issued, tok.1 ∈ s.used
  issued_nodup : s.issued.Nodup
  issued_le : ∀ c, s.cell = some c → ∀ v, (c.id, v) ∈ s.issued → v ≤ c.ver
  held_newest : ∀ tok, Holds s tok → s.issued.head? = some tok
  settled_issued : ∀ tok b, (tok, b) ∈ s.settled → tok ∈ s.issued
  /-- a settled cell carries what the token of its version before the settlement wrote -/
  closed_settled : ∀ i v b, s.cell = some ⟨i, v, .closed b⟩ → ∃ v₀, v = v₀ + bump ∧ ((i, v₀), b) ∈ s.settled

theorem inv_init : Inv bump (⟨none, [], [], []⟩ : State ι β) := by
  constructor <;> simp [Holds]

theorem Inv.not_holds_of_newer {tok tok' : ι × Nat} (hi : Inv bump s) (h : [tok', tok].Sublist s.issued) :
    ¬ Holds s tok := by
  intro hheld
  obtain ⟨rest, hrest⟩ := List.head?_eq_some_iff.mp (hi.held_newest tok hheld)
  have hnodup := hi.issued_nodup
  rw [hrest] at h hnodup
  have hmem : tok ∈ rest := by
    rcases sublist_cons_iff.mp h with h | ⟨r, hr, h⟩
    · exact h.subset (by simp)
    · simp only [List.cons.injEq] at hr
      exact h.subset (by simp [← hr.2])
  exact (nodup_cons.mp hnodup).1 hmem

variable [DecidableEq ι]

theorem Inv.step (hi : Inv bump s) (h : step bump regrant s a = some s') : Inv bump s' := by
  rcases step_cases h with ⟨i, -, hc, hu, rfl⟩ | ⟨i, v, st, -, hc, -, rfl⟩ | ⟨i, v, b, -, hc, rfl⟩ |
    ⟨i, v, -, hc, rfl⟩ | ⟨i, v, -, hc, rfl⟩
  · -- a fresh identity has no tokens
    have hfresh : ∀ v, (i, v) ∉ s.issued := fun v hv => hu (hi.issued_used _ hv)
    refine ⟨?_, fun t ht => mem_cons_of_mem _ (hi.issued_used t ht), hi.issued_nodup, ?_, ?_, hi.settled_issued, ?_⟩
    · simp
    · simp only [some.injEq, forall_eq']
      exact fun v hv => absurd hv (hfresh v)
    · simp [Holds]
    · simp
  · -- the next version is ahead of every token of the cell
    have hnew : (i, v + 1) ∉ s.issued := fun hv => by
      exact Nat.not_succ_le_self v (hi.issued_le _ hc (v + 1) hv)
    have hiu := hi.cell_used _ hc
    refine ⟨?_, ?_, nodup_cons.mpr ⟨hnew, hi.issued_nodup⟩, ?_, ?_, ?_, ?_⟩
    · simpa using hiu
    · simp only [mem_cons, forall_eq_or_imp]
      exact ⟨hiu, hi.issued_used⟩
    · simp only [some.injEq, forall_eq', mem_cons, Prod.mk.injEq, true_and]
      rintro w (rfl | hw)
      · exact Nat.le_refl _
      · exact Nat.le_succ_of_le (hi.issued_le _ hc w hw)
    · rintro ⟨j, w⟩ hw
      simp only [Holds, some.injEq, Cell.mk.injEq, and_true] at hw
      obtain ⟨rfl, rfl⟩ := hw
      rfl
    · exact fun tok b hb => mem_cons_of_mem _ (hi.settled_issued tok b hb)
    · simp
  · have htok : (i, v) ∈ s.issued := mem_of_mem_head? (hi.held_newest (i, v) hc)
    refine ⟨?_, hi.issued_used, hi.issued_nodup, ?_, ?_, ?_, ?_⟩
    · simpa using hi.cell_used _ hc
    · simp only [some.injEq, forall_eq']
      exact fun w hw => Nat.le_add_right_of_le (hi.issued_le _ hc w hw)
    · simp [Holds]
    · simp only [mem_cons, Prod.mk.injEq]
      rintro tok b' (⟨rfl, rfl⟩ | hb)
      · exact htok
      · exact hi.settled_issued tok b' hb
    · simp only [some.injEq, Cell.mk.injEq, Status.closed.injEq, mem_cons, Prod.mk.injEq]
      rintro j w b' ⟨rfl, rfl, rfl⟩
      exact ⟨v, rfl, .inl ⟨⟨rfl, rfl⟩, rfl⟩⟩
  · refine ⟨?_, hi.issued_used, hi.issued_nodup, ?_, ?_, hi.settled_issued, ?_⟩
    · simpa using hi.cell_used _ hc
    · simp only [some.injEq, forall_eq']
      exact fun w hw => Nat.le_add_right_of_le (hi.issued_le _ hc w hw)
    · simp [Holds]
    · simp
  · exact ⟨by simp, hi.issued_used, hi.issued_nodup, by simp, by simp [Holds], hi.settled_issued, by simp⟩

theorem inv (h : (machine bump regrant).Reachable s) : Inv bump s := by
  refine h.invariant (P := Inv bump) ?_ fun _ _ _ hi hs => hi.step hs
  rintro s rfl
  exact inv_init

def Superseded (s : State ι β) (tok : ι × Nat) : Prop := tok ∈ s.issued ∧ ¬ Holds s tok

theorem Superseded.step {tok : ι × Nat} (hi : Inv bump s) (ht : Superseded s tok)
    (h : step bump regrant s a = some s') : Superseded s' tok := by
  obtain ⟨htok, hne⟩ := ht
  rcases step_cases h with ⟨i, -, hc, hu, rfl⟩ | ⟨i, v, st, -, hc, -, rfl⟩ | ⟨i, v, b, -, hc, rfl⟩ |
    ⟨i, v, -, hc, rfl⟩ | ⟨i, v, -, hc, rfl⟩
  · exact ⟨htok, by simp [Holds]⟩
  · refine ⟨mem_cons_of_mem _ htok, ?_⟩
    simp only [Holds, some.injEq, Cell.mk.injEq, and_true]
    rintro ⟨hi', hv⟩
    have := hi.issued_le _ hc tok.2 (by rw [hi']; exact htok)
    simp only [← hv] at this
    omega
  · exact ⟨htok, by simp [Holds]⟩
  · exact ⟨htok, by simp [Holds]⟩
  · exact ⟨htok, by simp [Holds]⟩

theorem Superseded.later {tok : ι × Nat} (hr : (machine bump regrant).Reachable s)
    (hl : (machine bump regrant).Later s s') (ht : Superseded s tok) : Superseded s' tok :=
  hl.stable_of (P := fun t => Superseded t tok) (fun _ h => inv h)
    (fun _ _ _ hi ht hs => ht.step hi hs) hr ht

theorem settled_closed {tok : ι × Nat} {b : β} (hr : (machine bump false).Reachable s)
    (h : (tok, b) ∈ s.settled) : s.cell = some ⟨tok.1, tok.2 + bump, .closed b⟩ := by
  refine hr.invariant (P := fun s => ∀ tok b, (tok, b) ∈ s.settled →
    s.cell = some ⟨tok.1, tok.2 + bump, .closed b⟩) ?_ ?_ tok b h
  · rintro s rfl tok b hb
    simp at hb
  · intro s a s' hall hs tok b hb
    rcases step_cases hs with ⟨i, -, hc, -, rfl⟩ | ⟨i, v, st, -, hc, hreg, rfl⟩ | ⟨i, v, b', -, hc, rfl⟩ |
      ⟨i, v, -, hc, rfl⟩ | ⟨i, v, -, hc, rfl⟩
    case inr.inr.inl =>
      simp only [mem_cons, Prod.mk.injEq] at hb
      rcases hb with ⟨rfl, rfl⟩ | hb
      · rfl
      · exact absurd (hc.symm.trans (hall tok b hb)) (by simp)
    case inr.inl =>
      have := hc.symm.trans (hall tok b hb)
      simp only [some.injEq, Cell.mk.injEq] at this
      exact absurd (hreg b this.2.2) Bool.false_ne_true
    all_goals exact absurd (hc.symm.trans (hall tok b hb)) (by simp)

end IbexHarness.Lib.Fence
