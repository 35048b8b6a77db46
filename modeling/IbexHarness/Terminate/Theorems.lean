import IbexHarness.Terminate.Lemmas.Retained

/-! A turn in the buffer waits for the job that is furthest, or for another terminate request. -/

namespace IbexHarness.Terminate

open Lib ExtractionBuffer List

section

variable {η : Type} {fingerprint : List Turn → η} {w w' v : World η} {j : Nat} {st st' : Stage} {t : Turn}

/-! ## The job that is furthest -/

def Stage.level : Stage → Nat
  | .finalize _ => 1
  | .dispatch _ => 2
  | .claim _ => 3
  | .peek => 4
  | .ack _ | .done => 5

def level (jobs : List Stage) : Nat := jobs.foldr (fun st n => min st.level n) 5

variable {jobs : List Stage} {p : Party}

theorem le_level {n : Nat} : n ≤ level jobs ↔ n ≤ 5 ∧ ∀ st ∈ jobs, n ≤ st.level := by
  induction jobs with
  | nil => simp [level]
  | cons st jobs ih =>
    rw [level, foldr_cons, Nat.le_min, ← level, ih, forall_mem_cons]
    exact and_left_comm

theorem level_le (h : jobs[j]? = some st) : level jobs ≤ st.level :=
  (le_level.mp (Nat.le_refl _)).2 st (mem_of_getElem? h)

theorem level_le_five (jobs : List Stage) : level jobs ≤ 5 := (le_level.mp (Nat.le_refl _)).1

theorem level_pos (jobs : List Stage) : 0 < level jobs :=
  le_level.mpr ⟨by decide, fun st _ => by cases st <;> exact Nat.succ_pos _⟩

theorem exists_level (h : level jobs < 5) : ∃ (i : Nat) (st : Stage), jobs[i]? = some st ∧ st.level = level jobs := by
  by_contra hnone
  have hlt : level jobs + 1 ≤ level jobs := by
    refine le_level.mpr ⟨h, fun st hst => ?_⟩
    obtain ⟨i, hi⟩ := List.getElem?_of_mem hst
    have hle := level_le hi
    have hne : st.level ≠ level jobs := fun heq => hnone ⟨i, st, hi, heq⟩
    omega
  omega

inductive Party where
  /-- sends another terminate request -/
  | client
  | job (j : Nat)

def Party.acts : Party → Action → Prop
  | .client, a => a = .terminate
  | .job j, a => a = .advance j

def Helpful (w : World η) : Party → Prop
  | .client => level w.jobs = 5
  | .job j => ∃ st, w.jobs[j]? = some st ∧ st.level = level w.jobs ∧ st.level < 5

def Obliged [DecidableEq η] (fingerprint : List Turn → η) : Party → World η → Prop
  | .client, w => w.buffer ≠ []
  | .job j, w => ∃ a, a = .advance j ∧ ((machine fingerprint).restrict World.early).step w a ≠ none

theorem exists_helpful (w : World η) : ∃ p, Helpful w p := by
  by_cases h : level w.jobs < 5
  · obtain ⟨i, st, hi, hst⟩ := exists_level h
    exact ⟨.job i, st, hi, hst, hst ▸ h⟩
  · exact ⟨.client, Nat.le_antisymm (level_le_five _) (Nat.le_of_not_lt h)⟩

theorem level_setJob (hst : w.jobs[j]? = some st) (hmove : st'.level < st.level ∨ level w.jobs < st.level)
    (hp : Helpful w p) : level (w.setJob j st').jobs < level w.jobs ∨
      level (w.setJob j st').jobs = level w.jobs ∧ Helpful (w.setJob j st') p ∧ p ≠ .job j := by
  have hself : (w.setJob j st').jobs[j]? = some st' := (Parties.getElem?_set hst st' j).trans (if_pos rfl)
  by_cases hlt : st'.level < level w.jobs
  · exact .inl (Nat.lt_of_le_of_lt (level_le hself) hlt)
  · have hbehind : level w.jobs < st.level := hmove.elim (Nat.lt_of_le_of_lt (Nat.le_of_not_lt hlt)) id
    have hge : level w.jobs ≤ level (w.setJob j st').jobs := by
      refine le_level.mpr ⟨level_le_five _, fun x hx => ?_⟩
      rcases mem_or_eq_of_mem_set hx with hx | rfl
      · exact (le_level.mp (Nat.le_refl _)).2 x hx
      · exact Nat.le_of_not_lt hlt
    cases p with
    | client =>
      -- no job is behind level 5
      have hfive : st.level ≤ 5 := by cases st <;> simp [Stage.level]
      rw [show level w.jobs = 5 from hp] at hbehind
      omega
    | job i =>
      obtain ⟨x, hi, hx, hx5⟩ := hp
      have hij : i ≠ j := by
        rintro rfl
        rw [hst] at hi
        cases hi
        omega
      have hi' : (w.setJob j st').jobs[i]? = some x := ((Parties.getElem?_set hst st' i).trans (if_neg hij)).trans hi
      have heq : level (w.setJob j st').jobs = level w.jobs := Nat.le_antisymm (hx ▸ level_le hi') hge
      exact .inr ⟨heq, ⟨x, hi', hx.trans heq.symm, hx5⟩, fun h => hij (Party.job.inj h)⟩

/-! ## A turn that waits -/

def Delivered (t : Turn) (w : World η) : Prop := ∃ turns ∈ w.accepted, t ∈ turns

def Waits (t : Turn) (w : World η) : Prop := t ∈ w.buffer ∧ ¬Delivered t w

def rank (w : World η) : Nat := 6 * w.failures + level w.jobs

theorem Inv.held_eq {turns : List Turn} (h : Inv w) (hst : w.jobs[j]? = some st) (hturns : st.turns = some turns)
    (hwait : Waits t w) : w.buffer = turns :=
  (h.held j st hst turns hturns).resolve_left (ne_nil_of_mem hwait.1)

theorem Inv.not_ack {turns : List Turn} (h : Inv w) (hst : w.jobs[j]? = some (.ack turns)) (hwait : Waits t w) :
  False := hwait.2 ⟨turns, h.acked j _ hst turns rfl, h.held_eq hst rfl hwait ▸ hwait.1⟩

theorem Inv.level_le_two (h : Inv w) (hrow : w.row ≠ none) (hwait : Waits t w) : level w.jobs ≤ 2 := by
  obtain ⟨r, hr⟩ := Option.ne_none_iff_exists'.mp hrow
  cases hfinal : r.finalized with
  | true =>
    have haccepted := (h.finalized r hr hfinal).resolve_left (ne_nil_of_mem hwait.1)
    exact absurd ⟨_, haccepted, hwait.1⟩ hwait.2
  | false =>
    obtain ⟨i, st, hi, howns⟩ := h.owner r hr hfinal
    refine Nat.le_trans (level_le hi) ?_
    cases st with
    | dispatch | finalize => simp [Stage.level]
    | _ => cases howns

theorem Inv.job_rank (h : Inv w) (hwait : Waits t w) (hp : Helpful w p) (hst : w.jobs[j]? = some st)
    (hm : JobMove fingerprint w st st' v) : Delivered t (v.setJob j st') ∨ Waits t (v.setJob j st') ∧
      (rank (v.setJob j st') < rank w ∨ rank (v.setJob j st') = rank w ∧ Helpful (v.setJob j st') p ∧ p ≠ .job j) := by
  have hmoved : (st'.level < st.level ∨ level w.jobs < st.level) →
      rank (w.setJob j st') < rank w ∨ rank (w.setJob j st') = rank w ∧ Helpful (w.setJob j st') p ∧ p ≠ .job j := by
    intro hlevel
    rcases level_setJob hst hlevel hp with hlt | ⟨heq, hrest⟩
    · exact .inl (Nat.add_lt_add_left hlt _)
    · exact .inr ⟨congrArg (6 * w.failures + ·) heq, hrest⟩
  cases hm with
  | skipped hbuffer => exact absurd hbuffer (ne_nil_of_mem hwait.1)
  | peeked | owned | dispatched => exact .inr ⟨hwait, hmoved (.inl (by simp [Stage.level]))⟩
  | rejected hparse =>
    have hbuffer := h.held_eq hst rfl hwait
    rcases h.parsed with hnil | hok
    · exact absurd hnil (ne_nil_of_mem hwait.1)
    · rw [hbuffer, hparse] at hok
      cases hok
  | @replayed turns => exact .inl ⟨turns, mem_concat_self, h.held_eq hst rfl hwait ▸ hwait.1⟩
  | refused hrow =>
    have hlevel := h.level_le_two hrow hwait
    exact .inr ⟨hwait, hmoved (.inr (Nat.lt_succ_of_le hlevel))⟩
  | failed hfailures =>
    refine .inr ⟨hwait, .inl ?_⟩
    have hle := level_le_five (w.jobs.set j .done)
    have hpos := level_pos w.jobs
    simp only [rank, World.setJob]
    omega
  | @finalized turns => exact .inl ⟨turns, mem_concat_self, h.held_eq hst rfl hwait ▸ hwait.1⟩
  | acked | lost => exact (h.not_ack hst hwait).elim

theorem terminate_rank (hwait : Waits t w) (hp : Helpful w p) :
    let w' := { w with jobs := w.jobs ++ [.peek] }
    Waits t w' ∧ (rank w' < rank w ∨ rank w' = rank w ∧ Helpful w' p ∧ p ≠ .client) := by
  refine ⟨hwait, ?_⟩
  have hlast : (w.jobs ++ [Stage.peek])[w.jobs.length]? = some .peek := List.getElem?_concat_length
  cases p with
  | client =>
    have hfive : level w.jobs = 5 := hp
    have hfour : level (w.jobs ++ [Stage.peek]) ≤ 4 := level_le hlast
    refine .inl ?_
    simp only [rank]
    omega
  | job i =>
    obtain ⟨st, hi, hst, hlt⟩ := hp
    have hi' : (w.jobs ++ [Stage.peek])[i]? = some st := Parties.getElem?_concat _ hi
    have hge : level w.jobs ≤ level (w.jobs ++ [Stage.peek]) := by
      refine le_level.mpr ⟨level_le_five _, fun x hx => ?_⟩
      rcases mem_append.mp hx with hx | hx
      · exact (le_level.mp (Nat.le_refl _)).2 x hx
      · cases mem_singleton.mp hx
        exact Nat.le_of_lt_succ (hst ▸ hlt)
    have heq : level (w.jobs ++ [Stage.peek]) = level w.jobs := Nat.le_antisymm (hst ▸ level_le hi') hge
    exact .inr ⟨congrArg (6 * w.failures + ·) heq, ⟨st, hi', hst.trans heq.symm, hlt⟩, nofun⟩

section

variable [DecidableEq η]

theorem advance_ne_none (hlevel : st.level < 5) : w.advance fingerprint j st ≠ none := by
  cases st with
  | peek =>
    rw [World.advance]
    split <;> simp
  | claim turns =>
    rw [World.advance]
    split
    · split <;> simp
    · simp
  | dispatch | finalize => simp [World.advance]
  | ack | done => exact absurd hlevel (Nat.lt_irrefl 5)

theorem waits_step {a : Action} (h : Inv w) (hwait : Waits t w) (hp : Helpful w p)
    (hs : (machine fingerprint).step w a = some w') :
    Delivered t w' ∨ Waits t w' ∧ (rank w' < rank w ∨ rank w' = rank w ∧ Helpful w' p ∧ ¬p.acts a) := by
  cases move_of_step hs with
  | append turns =>
    refine .inr ⟨⟨?_, hwait.2⟩, .inr ⟨rfl, hp, by cases p <;> nofun⟩⟩
    obtain ⟨added, hmerged, -⟩ := mergeTurns_eq w.buffer (sanitizeTurns turns)
    simp only [World.append, hmerged]
    exact mem_append_left _ hwait.1
  | terminate =>
    obtain ⟨hwait', hrank⟩ := terminate_rank hwait hp
    refine .inr ⟨hwait', hrank.imp_right fun ⟨heq, hp', hne⟩ => ⟨heq, hp', ?_⟩⟩
    cases p with
    | client => exact absurd rfl hne
    | job i => nofun
  | @job _ j _ _ _ ha hst hm =>
    refine (h.job_rank hwait hp hst hm).imp_right fun ⟨hwait', hrank⟩ => ⟨hwait', hrank.imp_right ?_⟩
    rintro ⟨heq, hp', hne⟩
    refine ⟨heq, hp', fun hacts => ?_⟩
    cases p with
    | client => rcases ha with rfl | rfl | rfl <;> cases hacts
    | job i =>
      rcases ha with rfl | rfl | rfl <;> cases hacts
      exact hne rfl

end

end

variable {η : Type} [DecidableEq η] {fingerprint : List Turn → η} {w w' : World η} {t : Turn}

/-- As long as turns are only appended before the first enqueue of a session that the worker does not refuse, every turn
is in an enqueue that the worker accepts, whatever dispatches fail and answers are lost. -/
theorem retained_turns_delivered (trace : ((machine fingerprint).restrict World.early).Trace)
    (hretry : trace.FairWhile (fun w => w.buffer ≠ []) (· = .terminate))
    (hjobs : ∀ j, trace.Fair (· = .advance j)) (n : Nat) (turns : List Turn)
    (hact : trace.act n = some (.append turns))
    (hok : (mergeTurns (trace.state n).buffer (sanitizeTurns turns)).2 = false) :
    ∀ t ∈ sanitizeTurns turns, ∃ m, n < m ∧ ∃ batch ∈ (trace.state m).accepted, t ∈ batch := by
  intro t ht
  have hbuffer : t ∈ (trace.state (n + 1)).buffer := by
    obtain ⟨-, hstep⟩ := Machine.restrict_step_eq_some.mp (trace.step n _ hact)
    obtain ⟨added, hmerged, -, hadded⟩ := mergeTurns_eq (trace.state n).buffer (sanitizeTurns turns)
    rw [← Option.some.inj hstep, World.append, hmerged, hadded hok]
    exact mem_append_right _ ht
  by_cases hdelivered : Delivered t (trace.state (n + 1))
  · exact ⟨n + 1, Nat.lt_succ_self n, hdelivered⟩
  · obtain ⟨m, hm, hq⟩ := Machine.Trace.eventually (t := trace) (ι := Party) (A := Party.acts)
      (E := Obliged fingerprint) (P := Waits t) (Q := Delivered t) (H := fun p w => Helpful w p) rank
      (fun p => by cases p with
        | client => exact hretry
        | job j => exact hjobs j)
      (fun w _ _ => exists_helpful w)
      (fun w p hw hwait hp => by cases p with
        | client => exact ne_nil_of_mem hwait.1
        | job j =>
          obtain ⟨st, hst, -, hlevel⟩ := hp
          refine ⟨_, rfl, ?_⟩
          simpa [Machine.restrict, World.early, machine, hst] using advance_ne_none hlevel)
      (fun w a w' p hw hwait hp hs =>
        waits_step (inv_of_reachable hw) hwait hp (Machine.restrict_step_eq_some.mp hs).2)
      ⟨hbuffer, hdelivered⟩
    exact ⟨m, hm, hq⟩

/-! ## A session whose first enqueue fails -/

def firstTurn : Turn := ⟨0, "user".toList, "hello".toList⟩

def secondTurn : Turn := ⟨1, "user".toList, "bye".toList⟩

/-- The dispatch fails, another turn is appended, the answer to the next enqueue is lost and the one after it is a
replay. -/
def recovery : List Action :=
  [.append [firstTurn], .terminate, .advance 0, .advance 0, .fail 0, .terminate, .append [secondTurn],
    .advance 1, .advance 1, .advance 1, .advance 1, .lose 1, .terminate, .advance 2, .advance 2, .advance 2]

def recovered : World (List Turn) :=
  (((machine id).restrict World.early).run (.initial 1) recovery).get (by decide +kernel)

def recoveryTrace : ((machine (id : List Turn → List Turn)).restrict World.early).Trace :=
  .ofRun ⟨1, rfl⟩ (show Machine.run _ (.initial 1) recovery = some recovered from (Option.some_get _).symm)

theorem retained_turns_delivered_recovery :
    ∃ m, 6 < m ∧ ∃ batch ∈ (recoveryTrace.state m).accepted, secondTurn ∈ batch := by
  refine retained_turns_delivered recoveryTrace ?_ (fun j => ?_) 6 [secondTurn] rfl (by decide +kernel) secondTurn
    (by decide +kernel)
  · refine Machine.Trace.ofRun_fairWhile _ _ ?_
    decide +kernel
  · refine Machine.Trace.ofRun_fair _ _ ?_
    rintro _ rfl
    -- every job has returned
    have hdone : recovered.jobs = List.replicate 3 .done := by decide +kernel
    cases hst : recovered.jobs[j]? with
    | none => simp [Machine.restrict, machine, hst]
    | some st =>
      have hst' : st = .done := eq_of_mem_replicate (hdone ▸ mem_of_getElem? hst)
      simp [Machine.restrict, machine, hst, hst', World.advance]

/-! ## Turns behind a peek -/

structure Stuck (fingerprint : List Turn → η) (t : Turn) (w : World η) : Prop where
  row : ∃ hash, w.row = some ⟨hash, true⟩ ∧ ∀ turns, fingerprint turns = hash → t ∉ turns
  owner : ∀ (i : Nat) (st : Stage), w.jobs[i]? = some st → st.owns = false
  accepted : ∀ turns ∈ w.accepted, t ∉ turns

theorem Stuck.step {a : Action} (h : Stuck fingerprint t w) (hs : (machine fingerprint).step w a = some w') :
    Stuck fingerprint t w' := by
  obtain ⟨hash, hrow, hhash⟩ := h.row
  cases move_of_step hs with
  | append turns => exact { h with }
  | terminate => exact { h with owner := Parties.forall_concat rfl h.owner }
  | @job _ j st st' v _ hst hm =>
    have howner : ∀ st', st'.owns = false →
        ∀ (i : Nat) (x : Stage), (w.jobs.set j st')[i]? = some x → x.owns = false :=
      fun st' hst' => Parties.forall_set hst hst' fun i x _ hi => h.owner i x hi
    cases hm with
    | skipped | rejected | refused | lost | acked => exact { h with owner := howner .done rfl }
    | peeked => exact { h with owner := howner (.claim w.buffer) rfl }
    | owned hnone => exact absurd (hnone.symm.trans hrow) nofun
    | @replayed turns hreplay =>
      refine ⟨h.row, howner (.ack turns) rfl, fun ts hts => ?_⟩
      rcases mem_append.mp hts with hts | hts
      · exact h.accepted ts hts
      · cases mem_singleton.mp hts
        refine hhash turns ?_
        rw [hreplay] at hrow
        cases hrow
        rfl
    | dispatched | failed | finalized => exact absurd (h.owner j _ hst) (by simp [Stage.owns])

/-- The second turn is appended between the peek and the acknowledgement of the first. -/
def late : List Action :=
  [.append [firstTurn], .terminate, .advance 0, .append [secondTurn], .advance 0, .advance 0, .advance 0, .advance 0]

/-- A turn that is appended behind a peek stays in the buffer, and the worker refuses every later enqueue. -/
theorem late_turn_never_accepted : ∃ w : World (List Turn), (machine id).run (.initial 0) late = some w ∧
    w.buffer = [firstTurn, secondTurn] ∧ (mergeTurns [firstTurn] (sanitizeTurns [secondTurn])).2 = false ∧
    ∀ w', (machine id).Later w w' → ∀ batch ∈ w'.accepted, secondTurn ∉ batch := by
  refine ⟨((machine id).run (.initial 0) late).get (by decide +kernel), (Option.some_get _).symm, by decide +kernel,
    by decide +kernel, fun w' hl => ?_⟩
  refine (hl.stable (P := Stuck id secondTurn) (fun w a w' h hs => h.step hs)
    ⟨⟨[firstTurn], by decide +kernel, ?_⟩, ?_, ?_⟩).accepted
  · rintro _ rfl
    decide +kernel
  · intro i st hi
    have hall : ∀ st ∈ (((machine id).run (.initial 0) late).get (by decide +kernel) : World (List Turn)).jobs,
        st.owns = false := by decide +kernel
    exact hall st (mem_of_getElem? hi)
  · decide +kernel

end IbexHarness.Terminate
