import IbexHarness.ExtractionBuffer.Lemmas.Sizes
import IbexHarness.Terminate.Recovery

/-! While nothing is appended behind a peek every job has the turns of the buffer. -/

namespace IbexHarness.Terminate

open Lib ExtractionBuffer List Parties

variable {η : Type} [DecidableEq η] {fingerprint : List Turn → η} {w w' v : World η} {j : Nat} {st st' : Stage}

inductive JobMove (fingerprint : List Turn → η) (w : World η) : Stage → Stage → World η → Prop where
  | skipped : w.buffer = [] → JobMove fingerprint w .peek .done w
  | peeked : w.buffer ≠ [] → JobMove fingerprint w .peek (.claim w.buffer) w
  | rejected {turns : List Turn} : parseTurns turns = false → JobMove fingerprint w (.claim turns) .done w
  | owned {turns : List Turn} : w.row = none →
      JobMove fingerprint w (.claim turns) (.dispatch turns) { w with row := some ⟨fingerprint turns, false⟩ }
  | replayed {turns : List Turn} : w.row = some ⟨fingerprint turns, true⟩ →
      JobMove fingerprint w (.claim turns) (.ack turns) { w with accepted := w.accepted ++ [turns] }
  | refused {turns : List Turn} : w.row ≠ none → w.row ≠ some ⟨fingerprint turns, true⟩ →
      JobMove fingerprint w (.claim turns) .done w
  | dispatched {turns : List Turn} : JobMove fingerprint w (.dispatch turns) (.finalize turns) w
  | failed {turns : List Turn} : w.failures ≠ 0 →
      JobMove fingerprint w (.dispatch turns) .done { w with row := none, failures := w.failures - 1 }
  | finalized {turns : List Turn} : JobMove fingerprint w (.finalize turns) (.ack turns)
      { w with row := some ⟨fingerprint turns, true⟩, accepted := w.accepted ++ [turns] }
  | acked {turns : List Turn} : JobMove fingerprint w (.ack turns) .done
      { w with buffer := if w.buffer = turns then [] else w.buffer }
  | lost {turns : List Turn} : JobMove fingerprint w (.ack turns) .done w

theorem claim_eq (row : Option (Row η)) (requestHash : η) : claim row requestHash = .owned ∧ row = none ∨
      claim row requestHash = .replay ∧ row = some ⟨requestHash, true⟩ ∨
      (claim row requestHash = .conflict ∨ claim row requestHash = .inProgress) ∧ row ≠ none ∧
        row ≠ some ⟨requestHash, true⟩ := by
  rcases row with _ | ⟨hash, finalized⟩
  · exact .inl ⟨rfl, rfl⟩
  · by_cases hhash : hash = requestHash
    · subst hhash
      cases finalized with
      | true => exact .inr (.inl ⟨by simp [claim], rfl⟩)
      | false => exact .inr (.inr ⟨by simp [claim], nofun, by simp⟩)
    · exact .inr (.inr ⟨.inl (by simp [claim, hhash]), nofun, by simp [hhash]⟩)

theorem advance_move (hs : w.advance fingerprint j st = some w') :
    ∃ st' v, JobMove fingerprint w st st' v ∧ w' = v.setJob j st' := by
  cases st with
  | peek =>
    by_cases hbuffer : w.buffer = []
    · rw [World.advance, if_pos hbuffer] at hs
      cases hs
      exact ⟨_, _, .skipped hbuffer, rfl⟩
    · rw [World.advance, if_neg hbuffer] at hs
      cases hs
      exact ⟨_, _, .peeked hbuffer, rfl⟩
  | claim turns =>
    cases hparse : parseTurns turns with
    | false =>
      rw [World.advance, if_neg (by simp [hparse])] at hs
      cases hs
      exact ⟨_, _, .rejected hparse, rfl⟩
    | true =>
      rw [World.advance, if_pos hparse] at hs
      rcases claim_eq w.row (fingerprint turns) with ⟨hclaim, hrow⟩ | ⟨hclaim, hrow⟩ | ⟨hclaim, hsome, hother⟩
      · rw [hclaim] at hs
        cases hs
        exact ⟨_, _, .owned hrow, rfl⟩
      · rw [hclaim] at hs
        cases hs
        exact ⟨_, _, .replayed hrow, rfl⟩
      · rcases hclaim with hclaim | hclaim
        all_goals
          rw [hclaim] at hs
          cases hs
          exact ⟨_, _, .refused hsome hother, rfl⟩
  | dispatch turns =>
    cases hs
    exact ⟨_, _, .dispatched, rfl⟩
  | finalize turns =>
    cases hs
    exact ⟨_, _, .finalized, rfl⟩
  | ack turns =>
    cases hs
    exact ⟨_, _, .acked, rfl⟩
  | done => cases hs

inductive Move (fingerprint : List Turn → η) (w : World η) : Action → World η → Prop where
  | append (turns : List Turn) : Move fingerprint w (.append turns) (w.append turns)
  | terminate : Move fingerprint w .terminate { w with jobs := w.jobs ++ [.peek] }
  | job {a : Action} {j : Nat} {st st' : Stage} {v : World η} : (a = .advance j ∨ a = .fail j ∨ a = .lose j) →
      w.jobs[j]? = some st → JobMove fingerprint w st st' v → Move fingerprint w a (v.setJob j st')

theorem move_of_step {a : Action} (hs : (machine fingerprint).step w a = some w') : Move fingerprint w a w' := by
  cases a with
  | append turns =>
    cases hs
    exact .append turns
  | terminate =>
    cases hs
    exact .terminate
  | advance j =>
    obtain ⟨st, hst, hs⟩ := Option.bind_eq_some_iff.mp hs
    obtain ⟨st', v, hmove, rfl⟩ := advance_move hs
    exact .job (.inl rfl) hst hmove
  | fail j =>
    obtain ⟨st, hst, hs⟩ := Option.bind_eq_some_iff.mp hs
    cases st with
    | dispatch turns =>
      obtain ⟨hfailures, rfl⟩ := of_ite_none hs
      exact .job (.inr (.inl rfl)) hst (.failed hfailures)
    | _ => cases hs
  | lose j =>
    obtain ⟨st, hst, hs⟩ := Option.bind_eq_some_iff.mp hs
    cases st with
    | ack turns =>
      cases hs
      exact .job (.inr (.inr rfl)) hst .lost
    | _ => cases hs

/-! ## While nothing is appended behind a peek -/

def Stage.turns : Stage → Option (List Turn)
  | .claim turns | .dispatch turns | .finalize turns | .ack turns => some turns
  | .peek | .done => none

def Stage.owns : Stage → Bool
  | .dispatch _ | .finalize _ => true
  | _ => false

structure Inv (w : World η) : Prop where
  parsed : w.buffer = [] ∨ parseTurns w.buffer = true
  held : ∀ (i : Nat) (st : Stage), w.jobs[i]? = some st → ∀ turns, st.turns = some turns → w.buffer = [] ∨ w.buffer =
    turns
  acked : ∀ (i : Nat) (st : Stage), w.jobs[i]? = some st → ∀ turns, st = .ack turns → turns ∈ w.accepted
  finalized : ∀ r, w.row = some r → r.finalized = true → w.buffer = [] ∨ w.buffer ∈ w.accepted
  owner : ∀ r, w.row = some r → r.finalized = false → ∃ (i : Nat) (st : Stage), w.jobs[i]? = some st ∧ st.owns = true
  claimed : ∀ (i : Nat) (st : Stage), w.jobs[i]? = some st → st.owns = true →
    (∃ r, w.row = some r ∧ r.finalized = false) ∧
      ∀ (k : Nat) (st' : Stage), w.jobs[k]? = some st' → st'.owns = true → k = i

section

omit [DecidableEq η]

theorem Inv.init (failures : Nat) : Inv (World.initial failures : World η) where
  parsed := .inl rfl
  held := by simp [World.initial]
  acked := by simp [World.initial]
  finalized := by simp [World.initial]
  owner := by simp [World.initial]
  claimed := by simp [World.initial]

section

variable (h : Inv w)
include h

theorem Inv.setJob (hst : w.jobs[j]? = some st) (st' : Stage)
    (hturns : ∀ turns, st'.turns = some turns → w.buffer = [] ∨ w.buffer = turns)
    (hack : ∀ turns, st' = .ack turns → turns ∈ w.accepted) (howns : st'.owns = st.owns) : Inv (w.setJob j st') where
  __ := h
  held := forall_set hst hturns fun i st _ hi => h.held i st hi
  acked := forall_set hst hack fun i st _ hi => h.acked i st hi
  owner r hr hclaimed := by
    obtain ⟨i, x, hi, hx⟩ := h.owner r hr hclaimed
    by_cases hij : i = j
    · subst hij
      rw [hst] at hi
      cases hi
      exact ⟨i, st', (getElem?_set hst st' i).trans (if_pos rfl), howns.trans hx⟩
    · exact ⟨i, x, ((getElem?_set hst st' i).trans (if_neg hij)).trans hi, hx⟩
  claimed := by
    -- the owners are those of before
    have hall : ∀ (P : Nat → Prop), (∀ (k : Nat) (x : Stage), w.jobs[k]? = some x → x.owns = true → P k) →
        ∀ (k : Nat) (x : Stage), (w.jobs.set j st')[k]? = some x → x.owns = true → P k :=
      fun P hP => forall_set hst (fun hx => hP j st hst (howns.symm.trans hx)) fun k x _ hk => hP k x hk
    refine hall _ fun i x hi hx => ⟨(h.claimed i x hi hx).1, hall _ (h.claimed i x hi hx).2⟩

theorem Inv.accept (turns : List Turn) : Inv { w with accepted := w.accepted ++ [turns] } where
  __ := h
  acked i st hi ts hts := List.mem_append_left _ (h.acked i st hi ts hts)
  finalized r hr hfinal := (h.finalized r hr hfinal).imp_right (List.mem_append_left _)

theorem Inv.clear : Inv { w with buffer := [] } where
  __ := h
  parsed := .inl rfl
  held _ _ _ _ _ := .inl rfl
  finalized _ _ _ := .inl rfl

theorem Inv.own {turns : List Turn} (hrow : w.row = none) (hst : w.jobs[j]? = some (.claim turns)) (hash : η) :
    Inv ({ w with row := some ⟨hash, false⟩ }.setJob j (.dispatch turns)) := by
  have hnone : ∀ (k : Nat) (x : Stage), w.jobs[k]? = some x → x.owns = true → k = j := by
    intro k x hk hx
    obtain ⟨⟨r, hr, -⟩, -⟩ := h.claimed k x hk hx
    exact absurd (hrow.symm.trans hr) nofun
  have hjobs := forall_set (P := fun k x => x.owns = true → k = j) hst (b := .dispatch turns) (fun _ => rfl)
    fun k x _ hk => hnone k x hk
  exact {
    parsed := h.parsed
    held := forall_set hst (h.held j (.claim turns) hst) fun i x _ hi => h.held i x hi
    acked := forall_set hst nofun fun i x _ hi => h.acked i x hi
    finalized := fun r hr hfinal => by
      cases hr
      exact absurd hfinal Bool.false_ne_true
    owner := fun r _ _ => ⟨j, .dispatch turns, (getElem?_set hst _ j).trans (if_pos rfl), rfl⟩
    claimed := fun i x hi hx =>
      ⟨⟨_, rfl, rfl⟩, fun k y hk hy => (hjobs k y hk hy).trans (hjobs i x hi hx).symm⟩ }

theorem Inv.settle {row : Option (Row η)} (failures : Nat) (hst : w.jobs[j]? = some st)
    (howns : st.owns = true)
    (st' : Stage)
    (hturns : ∀ turns, st'.turns = some turns → w.buffer = [] ∨ w.buffer = turns)
    (hack : ∀ turns, st' = .ack turns → turns ∈ w.accepted) (howns' : st'.owns = false)
    (hrow : ∀ r, row = some r → r.finalized = true ∧ (w.buffer = [] ∨ w.buffer ∈ w.accepted)) :
    Inv ({ w with row := row, failures := failures }.setJob j st') where
  parsed := h.parsed
  held := forall_set hst hturns fun i x _ hi => h.held i x hi
  acked := forall_set hst hack fun i x _ hi => h.acked i x hi
  finalized r hr _ := (hrow r hr).2
  owner r hr hclaimed := absurd (hclaimed.symm.trans (hrow r hr).1) (by decide)
  claimed := forall_set hst (fun hx => absurd (howns'.symm.trans hx) (by decide))
    fun i x hij hi hx => absurd ((h.claimed j st hst howns).2 i x hi hx) hij

theorem Inv.job (hst : w.jobs[j]? = some st) (hm : JobMove fingerprint w st st' v) : Inv (v.setJob j st') := by
  cases hm with
  | skipped | rejected | refused | lost => exact h.setJob hst .done nofun nofun rfl
  | peeked =>
    refine h.setJob hst (.claim w.buffer) (fun turns hturns => ?_) nofun rfl
    cases hturns
    exact .inr rfl
  | owned hrow => exact h.own hrow hst _
  | @replayed turns =>
    refine (h.accept turns).setJob hst (.ack turns) (h.held j (.claim turns) hst) (fun ts hts => ?_) rfl
    cases hts
    exact mem_concat_self
  | @dispatched turns => exact h.setJob hst (.finalize turns) (h.held j (.dispatch turns) hst) nofun rfl
  | failed => exact h.settle _ hst rfl .done nofun nofun rfl nofun
  | @finalized turns =>
    refine (h.accept turns).settle w.failures hst rfl (.ack turns) (h.held j (.finalize turns) hst)
      (fun ts hts => ?_) rfl fun r hr => ?_
    · cases hts
      exact mem_concat_self
    · cases hr
      refine ⟨rfl, (h.held j _ hst turns rfl).imp_right fun heq => ?_⟩
      rw [heq]
      exact mem_concat_self
  | @acked turns =>
    by_cases hbuffer : w.buffer = turns
    · rw [if_pos hbuffer]
      exact h.clear.setJob hst .done nofun nofun rfl
    · rw [if_neg hbuffer]
      exact h.setJob hst .done nofun nofun rfl

theorem Inv.append {turns : List Turn} (hearly : w.early (.append turns) = true) : Inv (w.append turns) := by
  simp only [World.early, Bool.and_eq_true, Option.isNone_iff_eq_none, all_eq_true] at hearly
  obtain ⟨⟨hrow, hidle⟩, hparse⟩ := hearly
  have hjobs : ∀ (i : Nat) (st : Stage), w.jobs[i]? = some st → st = .peek ∨ st = .done := by
    intro i st hi
    have hst := hidle st (mem_of_getElem? hi)
    cases st with
    | peek => exact .inl rfl
    | done => exact .inr rfl
    | _ => cases hst
  exact {
    parsed := .inr hparse
    held := fun i st hi turns hturns => by
      rcases hjobs i st hi with rfl | rfl <;> cases hturns
    acked := h.acked
    finalized := fun r hr => absurd (hrow.symm.trans hr) nofun
    owner := fun r hr => absurd (hrow.symm.trans hr) nofun
    claimed := h.claimed }

theorem Inv.terminate : Inv { w with jobs := w.jobs ++ [.peek] } where
  __ := h
  held := forall_concat nofun h.held
  acked := forall_concat nofun h.acked
  owner r hr hclaimed := by
    obtain ⟨i, st, hi, hst⟩ := h.owner r hr hclaimed
    exact ⟨i, st, getElem?_concat _ hi, hst⟩
  claimed := forall_concat nofun fun i st hi hst =>
    ⟨(h.claimed i st hi hst).1, forall_concat nofun (h.claimed i st hi hst).2⟩

end

end

theorem inv_of_reachable (h : ((machine fingerprint).restrict World.early).Reachable w) : Inv w := by
  refine h.invariant (fun s hinit => ?_) fun s a s' hs hstep => ?_
  · obtain ⟨failures, rfl⟩ := hinit
    exact .init failures
  · obtain ⟨hearly, hstep⟩ := Machine.restrict_step_eq_some.mp hstep
    cases move_of_step hstep with
    | append turns => exact hs.append hearly
    | terminate => exact hs.terminate
    | job _ hst hm => exact hs.job hst hm

end IbexHarness.Terminate
