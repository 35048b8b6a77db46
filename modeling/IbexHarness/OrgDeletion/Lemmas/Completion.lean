import IbexHarness.OrgDeletion.Lemmas.Progress

/-! A task without a hold, without errors and with all stores in reach ends with `succeeded`. -/

namespace IbexHarness.OrgDeletion

open Lib Function List Option World

variable {S : Settings} {w w' : World} {T : Task} {u r : Nat}

variable {a : Action} {st : Statement}

theorem receipts_step (hinv : Inv S w) (hs : w.step S a = some w') (k : ReceiptKey) (v : ReceiptStatus)
    (hv : w.receipts.rows k = some v) : w'.receipts.rows k = some v := by
  cases a with
  | advance t =>
    obtain ⟨st, -, hs⟩ := bind_eq_some_iff.mp hs
    cases st with
    | read | noHold | runStage =>
      cases hs
      exact hv
    | advisoryLock | certify | claim | updateJob =>
      obtain ⟨_, -, rfl⟩ := map_eq_some_iff.mp hs
      exact hv
    | upsertReceipt =>
      obtain ⟨receipts, ha, rfl⟩ := map_eq_some_iff.mp hs
      exact (congrFun (RowStore.rows_of_acquire ha) k).trans hv
    | raise =>
      cases hs
      rw [raise_eq]
      exact hv
    | commit next =>
      cases hs
      exact (hinv.moves_commit t next).receipts k v hv
  | error t =>
    obtain ⟨-, rfl⟩ := of_ite_some hs
    rw [raise_eq]
    exact hv
  | deliver | crash =>
    obtain ⟨-, rfl⟩ := of_ite_some hs
    exact hv
  | _ =>
    rw [(step_frame hs).receipts (by simp [Action.party])]
    exact hv

theorem receipt_exec {s : Store} (hs : w.exec u st = some w') (hraise : ∀ x, st ≠ .raise x)
    (h : (w.tasks u).receipt w.toTables s ≠ none ∨ ∃ v next, st = .upsertReceipt s v next) :
    (w'.tasks u).receipt w'.toTables s ≠ none := by
  cases st with
  | read | noHold | runStage =>
    cases hs
    have h := h.resolve_right (by simp)
    simpa [setTask, Task.receipt] using h
  | advisoryLock | certify | claim | updateJob =>
    obtain ⟨_, -, rfl⟩ := map_eq_some_iff.mp hs
    have h := h.resolve_right (by simp)
    simpa [setTask, Task.receipt] using h
  | upsertReceipt s' v next =>
    obtain ⟨receipts, ha, rfl⟩ := map_eq_some_iff.mp hs
    by_cases hs : s = s'
    · subst hs
      simp [setTask, Task.receipt]
    · have h := h.resolve_right (by simp [Ne.symm hs])
      have hk : (⟨(w.tasks u).job, s⟩ == (⟨(w.tasks u).job, s'⟩ : ReceiptKey)) = false := by simp [hs]
      simpa [setTask, Task.receipt, lookup_cons, hk, RowStore.rows_of_acquire ha] using h
  | raise x => exact absurd rfl (hraise x)
  | commit next =>
    cases hs
    have h := h.resolve_right (by simp)
    simpa [commit, setTask, Task.receipt, Task.ended, RowStore.commitAll, RowStore.rollback] using h

theorem Settings.outcome_of_configured (hconf : ∀ s, S.deployed s = true → S.configured s = true) (s : Store) :
    S.outcome s = if S.deployed s then .verified else .notApplicable := by
  by_cases hd : S.deployed s = true
  · rw [if_pos hd, S.outcome_eq_verified hd (hconf s hd)]
  · rw [if_neg hd, S.outcome_eq_notApplicable (by simpa using hd)]

/-! ## The course of a task -/

def TaskStage.passed : TaskStage → Nat
  | .receipt s | .requireLock s | .requireHold s | .run s | .upsert s _ => s.index
  | .commitPurge | .publish => 1
  | .finalize _ | .certificate | .finish _ | .commit => 4
  | _ => 0

theorem passed_after (s : Store) : s.after.passed = s.index + 1 := by
  cases s <;> rfl

theorem Store.index_lt_four (s : Store) : s.index < 4 := by
  cases s <;> decide

theorem Store.eq_of_index {s s' : Store} (h : s.index = s'.index) : s = s' := by
  cases s <;> cases s' <;> first | rfl | simp [Store.index] at h

structure OnCourse (W : Tables) (T : Task) : Prop where
  phase : T.phase ≠ .failing
  audit : T.stage ≠ .auditBlocked
  finish : ∀ status, T.stage = .finish status → status = .succeeded
  commit : T.stage = .commit → T.jobs.lookup T.job = some (some .succeeded)
  receipts : ∀ s, s.index < T.stage.passed → T.receipt W s ≠ none

theorem OnCourse.kept {W W' : Tables} (h : OnCourse W T)
    (hrows : ∀ k v, W.receipts.rows k = some v → W'.receipts.rows k = some v) : OnCourse W' T := by
  refine { h with receipts := fun s hs => ?_ }
  have hseen := h.receipts s hs
  unfold Task.receipt at hseen ⊢
  cases hl : T.receipts.lookup ⟨T.job, s⟩ with
  | some v => simpa [hl] using hseen
  | none =>
    rw [hl, getD_none] at hseen
    obtain ⟨v, hv⟩ := ne_none_iff_exists'.mp hseen
    simp [hrows _ v hv]

theorem OnCourse.move {W W' : Tables} {T' : Task} (h : OnCourse W T) (hphase : T'.phase = T.phase)
    (hstage : T'.stage ≠ .auditBlocked ∧ (∀ status, T'.stage ≠ .finish status) ∧ T'.stage ≠ .commit)
    (hseen : ∀ s, s.index < T'.stage.passed → T'.receipt W' s ≠ none) : OnCourse W' T' :=
  ⟨hphase ▸ h.phase, hstage.1, fun status hs => absurd hs (hstage.2.1 status), fun hs => absurd hs hstage.2.2, hseen⟩

theorem after_ne (s : Store) :
    s.after ≠ .auditBlocked ∧ (∀ status, s.after ≠ .finish status) ∧ s.after ≠ .commit := by
  cases s <;> exact ⟨nofun, nofun, nofun⟩

theorem OnCourse.exec (h : OnCourse w.toTables (w.tasks u)) (hinv : Inv S w) (hjobs : JobInv w)
    (hhold : w.hold = false) (hconf : ∀ s, S.deployed s = true → S.configured s = true)
    (hrow : w.jobs.rows (w.tasks u).job ≠ none) (hbusy : (w.tasks u).stage.resting = false)
    (hst : (w.tasks u).statement S w.toTables = some st) (hs : w.exec u st = some w') :
    (w.tasks u).stage = .commit ∧ st = .commit .done ∨ OnCourse w'.toTables (w'.tasks u) := by
  have hraise : ∀ x, st ≠ .raise x := by
    rintro x rfl
    rcases issued_of_statement hst with ⟨s, -, hh⟩ | ⟨s, -, -, hd, hc⟩
    · exact absurd (hh.symm.trans hhold) (by decide)
    · exact absurd (hc.symm.trans (hconf s hd)) (by decide)
  have hseen := fun s => receipt_exec (s := s) hs hraise
  have htask : w'.tasks u = (w.tasks u).after w.memories st := by
    obtain ⟨W, rfl⟩ := exec_eq hs
    exact update_self _ _ _
  have hfits := (hjobs.steady u).fits
  rw [htask] at hseen ⊢
  have hissues := issues_of_statement hst
  generalize hcur : (w.tasks u).stage = stage at hissues hfits hbusy
  -- the receipts stand, and a task at a receipt that it reads may pass it
  have hkept : ∀ s, s.index < stage.passed → ((w.tasks u).after w.memories st).receipt w'.toTables s ≠ none :=
    fun s hs => hseen s (.inl (h.receipts s (hcur ▸ hs)))
  have hpass : ∀ s s', s.index = stage.passed → s'.index < s.after.passed →
      (w.tasks u).receipt w.toTables s ≠ none ∨ (∃ v next, st = .upsertReceipt s v next) →
      ((w.tasks u).after w.memories st).receipt w'.toTables s' ≠ none := by
    intro s s' hstage hs' hr
    rw [passed_after] at hs'
    rcases Nat.lt_or_eq_of_le (Nat.le_of_lt_succ hs') with hlt | heq
    · exact hkept s' (hstage ▸ hlt)
    · exact Store.eq_of_index heq ▸ hseen s hr
  cases hissues with
  | claim | unclaimed => cases hbusy
  | auditBlocked => exact absurd hcur h.audit
  | failReceipt s => exact absurd (by simpa [TaskStage.fits] using hfits) h.phase
  | held hh | refused s hh => exact absurd (hh.symm.trans hhold) (by decide)
  | unconfigured => exact absurd rfl (hraise _)
  | lock | requireLock | run | publish | free | allowed | undeployed | wanted =>
    exact .inr (h.move rfl (by simp [Task.after]) hkept)
  | kept s hr => exact .inr (h.move rfl (after_ne s) fun s' hs' => hpass s s' rfl hs' (.inl hr))
  | upsert s v => exact .inr (h.move rfl (after_ne s) fun s' hs' => hpass s s' rfl hs' (.inr ⟨v, s.after, rfl⟩))
  | commitPurge =>
    refine .inr ⟨?_, ?_, ?_, ?_, hkept⟩
    all_goals simp [Task.after, Task.ended]
  | finalized s =>
    refine .inr (h.move rfl ?_ fun s' _ => hkept s' s'.index_lt_four)
    cases s <;> simp [Task.after, Store.afterFinalize]
  | missing s hr =>
    obtain ⟨v, hv⟩ := ne_none_iff_exists'.mp (h.receipts s (hcur ▸ s.index_lt_four))
    rw [hv, hinv.outcome_of_receipt hv, S.outcome_of_configured hconf] at hr
    exact absurd rfl hr
  | certificate =>
    exact .inr ⟨h.phase, by simp [Task.after], fun status hs => (TaskStage.finish.inj hs).symm, by simp [Task.after],
      hkept⟩
  | finish status =>
    obtain rfl := h.finish status hcur
    exact .inr ⟨h.phase, by simp [Task.after], by simp [Task.after], fun _ => by simp [Task.after], hkept⟩
  | gone status hr => exact absurd hr hrow
  | commit => exact .inl ⟨rfl, rfl⟩

/-! ## The course of a job -/

/-- No task claims the job before it is committed, and no worker dies with a task of the job after its first
transaction. -/
def claimsInTime (r : Nat) (w : World) : Action → Bool
  | .advance u => (w.tasks u).job ≠ r || (w.tasks u).stage ≠ TaskStage.claim || (w.jobs.rows r).isSome
  | .crash u => (w.tasks u).job ≠ r || (w.tasks u).phase = Phase.first
  | _ => true

def Alive (r : Nat) (w : World) : Prop := r ∈ w.queue ∨ ∃ u, (w.tasks u).job = r ∧ w.active u = true

def Busy (r : Nat) (w : World) : Prop := ∃ u, (w.tasks u).job = r ∧ (w.tasks u).stage.resting = false

theorem active_of_busy (h : (w.tasks u).stage.resting = false) : w.active u = true := by
  cases hcur : (w.tasks u).stage with
  | idle | claim | done => simp [hcur, TaskStage.resting] at h
  | _ => simp [active, hcur]

theorem active_cases (h : w.active u = true) : (w.tasks u).stage = .claim ∨ (w.tasks u).stage.resting = false := by
  simp only [active, Bool.and_eq_true, decide_eq_true_eq] at h
  cases hcur : (w.tasks u).stage with
  | idle => exact absurd hcur h.1
  | done => exact absurd hcur h.2
  | claim => exact .inl rfl
  | _ => exact .inr rfl

theorem Owned.not_busy (h : Owned r w) (hrow : w.jobs.rows r = none) : ¬Busy r w := by
  rintro ⟨u, hjob, hbusy⟩
  have hclaimed := h.row_of_claimed hjob (h.active u hjob hbusy)
  simp [hrow] at hclaimed

theorem queue_step (hs : w.step S a = some w') (hr : r ∈ w.queue) : r ∈ w'.queue ∨ a = .deliver r := by
  rcases (step_frame hs).messages with hsame | ⟨j, hcons⟩ | ⟨j, rfl, herase⟩
  · exact .inl (hsame ▸ hr)
  · exact .inl (hcons ▸ mem_cons_of_mem _ hr)
  · by_cases hj : r = j
    · exact .inr (hj ▸ rfl)
    · exact .inl (herase ▸ (mem_erase_of_ne hj).mpr hr)

theorem tasks_deliver {j : Nat} (hs : w.step S (.deliver j) = some w') : w'.tasks w.nextTask = .start j := by
  obtain ⟨-, rfl⟩ := of_ite_some hs
  exact update_self _ _ _

theorem job_step (hs : w.step S a = some w') (ha : a = .advance u ∨ a = .error u ∨ a = .crash u) :
    (w'.tasks u).job = (w.tasks u).job := by
  rcases ha with rfl | rfl | rfl
  · obtain ⟨st, -, htask⟩ := tasks_advance hs
    rw [htask, Task.job_after]
  · obtain ⟨-, rfl⟩ := of_ite_some hs
    simp [raise_eq, setTask, Task.raised, Task.ended]
  · obtain ⟨-, rfl⟩ := of_ite_some hs
    simp [rollback, setTask, Task.ended]

theorem Alive.step (h : Alive r w) (hjobs : JobInv w) (hs : w.step S a = some w')
    (herr : ∀ u, a = .error u → (w.tasks u).job ≠ r)
    (hadvance : ∀ u, a = .advance u → (w.tasks u).job = r → w.active u = true → w'.active u = true) : Alive r w' := by
  rcases h with hqueue | ⟨u, hjob, hactive⟩
  · rcases queue_step hs hqueue with hqueue | rfl
    · exact .inl hqueue
    · refine .inr ⟨w.nextTask, ?_, ?_⟩
      · rw [tasks_deliver hs]
        rfl
      · simp [active, tasks_deliver hs, Task.start]
  · rcases tasks_step hs u with hsame | (ha | rfl | rfl) | ⟨rfl, -⟩
    · refine .inr ⟨u, by rw [hsame, hjob], ?_⟩
      simpa [active, hsame] using hactive
    · exact .inr ⟨u, (job_step hs (.inl ha)).trans hjob, hadvance u ha hjob hactive⟩
    · exact absurd hjob (herr u rfl)
    · obtain ⟨-, rfl⟩ := of_ite_some hs
      exact .inl (hjob ▸ mem_cons_self)
    · simp [active, hjobs.tasks _ (Nat.le_refl _), Task.idle] at hactive

structure Going (r : Nat) (w : World) : Prop where
  row : w.jobs.rows r = some .pending ∨ w.jobs.rows r = some .running ∨ w.jobs.rows r = some .succeeded
  course : ∀ u, (w.tasks u).job = r → (w.tasks u).stage.resting = false → OnCourse w.toTables (w.tasks u)
  pending : w.jobs.rows r = some .pending → Alive r w
  running : w.jobs.rows r = some .running → Busy r w

theorem Going.rows_commit {next : TaskStage} (h : Going r w) (hjobs : JobInv w) (hjob : (w.tasks u).job = r)
    (hst : (w.tasks u).statement S w.toTables = some (.commit next)) :
    next = .publish ∧ (w.commit u next).jobs.rows r = some .running ∨
      next = .done ∧ (w.commit u next).jobs.rows r = some .succeeded := by
  have hrows : ∀ status, (w.tasks u).jobs.lookup r = some (some status) → (w.commit u next).jobs.rows r = some status :=
    fun status hl => by simp [commit, setTask, RowStore.commitAll, RowStore.rollback, hl]
  rcases issued_of_statement hst with ⟨hs, rfl⟩ | ⟨hs, rfl⟩
  · have hfirst : (w.tasks u).phase = .first := by simpa [hs, TaskStage.fits] using (hjobs.steady u).fits
    obtain ⟨-, status, hl, hstatus⟩ := (hjobs.steady u).first hfirst (by rw [hs]; rfl)
    obtain rfl := hstatus (by simp [hs])
    exact .inl ⟨rfl, hrows _ (hjob ▸ hl)⟩
  · exact .inr ⟨rfl, hrows _ (hjob ▸ (h.course u hjob (by rw [hs]; rfl)).commit hs)⟩

theorem Going.row_step (h : Going r w) (hinv : Inv S w) (hjobs : JobInv w) (hs : w.step S a = some w') :
    w'.jobs.rows r = w.jobs.rows r ∨ ∃ u next, (w.tasks u).job = r ∧
      (w.tasks u).statement S w.toTables = some (.commit next) ∧ w' = w.commit u next := by
  rcases step_committed hs with ⟨u, next, rfl, hst, hw⟩ | ⟨r', status, -, hcreate⟩ | hsame
  · by_cases hjob : (w.tasks u).job = r
    · exact .inr ⟨u, next, hjob, hst, hw⟩
    · have hl : (w.tasks u).jobs.lookup r = none := by
        cases hl : (w.tasks u).jobs.lookup r with
        | none => rfl
        | some v => exact absurd ((hinv.tasks u).jobs r v hl).symm hjob
      exact .inl (by simp [hw, commit, setTask, RowStore.commitAll, RowStore.rollback, hl])
  · have hne : r ≠ r' := by
      rintro rfl
      have hans := hjobs.answered r (by rcases h.row with hrow | hrow | hrow <;> simp [hrow])
      rcases hcreate.stage with ⟨-, hstage, -⟩ | ⟨-, hstage, -⟩ <;> simp [hstage] at hans
    exact .inl (by rw [hcreate.rows, update_of_ne hne])
  · exact .inl (by rw [hsame.rows])

theorem stage_after {next : TaskStage} (memories : List Nat) (hn : st.next = some next) :
    (T.after memories st).stage = next := by
  cases st with
  | raise | commit => cases hn
  | _ => exact some.inj hn

theorem Going.advance (h : Going r w) (hinv : Inv S w) (hjobs : JobInv w) (hhold : w.hold = false)
    (hconf : ∀ s, S.deployed s = true → S.configured s = true) (hjob : (w.tasks u).job = r)
    (hbusy : (w.tasks u).stage.resting = false) (hs : w.step S (.advance u) = some w') :
    (w'.tasks u).stage = .done ∧ w'.jobs.rows r = some .succeeded ∨
      (w'.tasks u).stage.resting = false ∧ OnCourse w'.toTables (w'.tasks u) := by
  obtain ⟨st, hst, htask⟩ := tasks_advance hs
  obtain ⟨st', hst', hexec⟩ := bind_eq_some_iff.mp hs
  obtain rfl : st = st' := some.inj (hst.symm.trans hst')
  have hrow : w.jobs.rows (w.tasks u).job ≠ none := by
    rw [hjob]
    rcases h.row with hrow | hrow | hrow <;> simp [hrow]
  rcases (h.course u hjob hbusy).exec hinv hjobs hhold hconf hrow hbusy hst hexec with ⟨-, rfl⟩ | hcourse
  · refine .inl ⟨by rw [htask]; rfl, ?_⟩
    cases hexec
    rcases h.rows_commit hjobs hjob hst with ⟨hnext, -⟩ | ⟨-, hrow⟩
    · cases hnext
    · exact hrow
  · cases hn : st.next with
    | some next =>
      rcases statement_next (hjobs.steady u).fits hst hn with ⟨hclaim, -⟩ | ⟨-, hrest, -⟩
      · rw [hclaim] at hbusy
        cases hbusy
      · exact .inr ⟨by rw [htask, stage_after _ hn, hrest], hcourse⟩
    | none =>
      cases st with
      | raise => exact absurd (by rw [htask]; rfl) hcourse.phase
      | commit next =>
        cases hexec
        rcases h.rows_commit hjobs hjob hst with ⟨rfl, -⟩ | ⟨rfl, hrow⟩
        · exact .inr ⟨by rw [htask]; rfl, hcourse⟩
        · exact .inl ⟨by rw [htask]; rfl, hrow⟩
      | _ => cases hn

theorem claim_advance (hjobs : JobInv w) (hclaim : (w.tasks u).stage = .claim) (hs : w.step S (.advance u) = some w') :
    (w'.tasks u).stage.resting = false ∧ OnCourse w'.toTables (w'.tasks u) ∨
      (w'.tasks u).stage = .done ∧ w.jobs.rows (w.tasks u).job ≠ some .pending := by
  obtain ⟨st, hst, htask⟩ := tasks_advance hs
  have hfirst : (w.tasks u).phase = .first := by simpa [hclaim, TaskStage.fits] using (hjobs.steady u).fits
  have hlock : st = .claim .lock → (w'.tasks u).stage.resting = false ∧ OnCourse w'.toTables (w'.tasks u) := by
    rintro rfl
    rw [htask]
    refine ⟨rfl, ?_, by simp [Task.after], by simp [Task.after], by simp [Task.after],
      fun s hs => absurd hs (Nat.not_lt_zero _)⟩
    simp [Task.after, hfirst]
  simp only [Task.statement, hclaim] at hst
  split at hst
  case h_1 | h_2 =>
    cases hst
    exact .inl (hlock rfl)
  case h_3 hpending _ =>
    cases hst
    exact .inr ⟨by rw [htask]; rfl, hpending⟩

theorem claim_ne_none (hinv : Inv S w) (hjobs : JobInv w) (hclaim : (w.tasks u).stage = .claim)
    (hrow : w.jobs.rows (w.tasks u).job = some .pending) (hbusy : ¬Busy (w.tasks u).job w) :
    w.step S (.advance u) ≠ none := by
  simp only [step, Task.statement, hclaim, hrow, bind_some, exec, ne_eq, map_eq_none_iff]
  intro hnone
  obtain ⟨v, -, hv⟩ := hjobs.jobLocks.held_of_acquire_eq_none hnone
  obtain ⟨d, hd⟩ := isSome_iff_exists.mp hv
  exact hbusy ⟨v, ((hinv.tasks v).jobs _ _ hd).symm, hjobs.busy_of_drafted hd⟩

theorem stage_crash (hs : w.step S (.crash u) = some w') : (w'.tasks u).stage = .done := by
  obtain ⟨-, rfl⟩ := of_ite_some hs
  simp [rollback, setTask, Task.ended]

section
variable {a : Action} (hinv : Inv S w) (hjobs : JobInv w) (howned : Owned r w) (hhold : w.hold = false)
  (hconf : ∀ s, S.deployed s = true → S.configured s = true) (hc : claimsInTime r w a = true)
  (herr : ∀ u, a = .error u → (w.tasks u).job ≠ r) (hs : w.step S a = some w')

include hinv hjobs hhold hconf herr hs in
theorem Going.course_step (h : Going r w) (hjob : (w'.tasks u).job = r) (hbusy : (w'.tasks u).stage.resting = false) :
    OnCourse w'.toTables (w'.tasks u) := by
  rcases tasks_step hs u with hsame | ha | ⟨rfl, j, -, hstart⟩
  · rw [hsame] at hjob hbusy ⊢
    exact (h.course u hjob hbusy).kept (receipts_step hinv hs)
  · have hjob' : (w.tasks u).job = r := (job_step hs ha).symm.trans hjob
    rcases ha with rfl | rfl | rfl
    · have hactive : w.active u = true := by
        by_contra hnot
        have hnone : (w.tasks u).statement S w.toTables = none := by
          simp only [active, Bool.and_eq_true, decide_eq_true_eq, not_and, Decidable.not_not] at hnot
          by_cases hidle : (w.tasks u).stage = .idle
          · simp [Task.statement, hidle]
          · simp [Task.statement, hnot hidle]
        simp [step, hnone] at hs
      rcases active_cases hactive with hclaim | hbusy'
      · rcases claim_advance hjobs hclaim hs with ⟨-, hcourse⟩ | ⟨hdone, -⟩
        · exact hcourse
        · simp [hdone, TaskStage.resting] at hbusy
      · rcases h.advance hinv hjobs hhold hconf hjob' hbusy' hs with ⟨hdone, -⟩ | ⟨-, hcourse⟩
        · simp [hdone, TaskStage.resting] at hbusy
        · exact hcourse
    · exact absurd hjob' (herr u rfl)
    · simp [stage_crash hs, TaskStage.resting] at hbusy
  · simp [hstart, Task.start, TaskStage.resting] at hbusy

include hinv hjobs hhold hconf herr hs in
theorem Going.pending_step (h : Going r w) (hrow : w'.jobs.rows r = some .pending) : Alive r w' := by
  have hrow' : w.jobs.rows r = some .pending := by
    rcases h.row_step hinv hjobs hs with hsame | ⟨u, next, hjob, hst, rfl⟩
    · exact hsame.symm.trans hrow
    · rcases h.rows_commit hjobs hjob hst with ⟨-, hrow'⟩ | ⟨-, hrow'⟩ <;> simp [hrow'] at hrow
  refine (h.pending hrow').step hjobs hs herr ?_
  rintro u rfl hjob hactive
  refine active_of_busy ?_
  rcases active_cases hactive with hclaim | hbusy
  · rcases claim_advance hjobs hclaim hs with ⟨hbusy, -⟩ | ⟨-, hnot⟩
    · exact hbusy
    · exact absurd (hjob ▸ hrow') hnot
  · rcases h.advance hinv hjobs hhold hconf hjob hbusy hs with ⟨-, hdone⟩ | ⟨hbusy', -⟩
    · simp [hdone] at hrow
    · exact hbusy'

include hinv hjobs howned hhold hconf hc herr hs in
theorem Going.running_step (h : Going r w) (hrow : w'.jobs.rows r = some .running) : Busy r w' := by
  rcases h.row_step hinv hjobs hs with hsame | ⟨u, next, hjob, hst, rfl⟩
  · have hrow' : w.jobs.rows r = some .running := hsame.symm.trans hrow
    obtain ⟨u, hjob, hbusy⟩ := h.running hrow'
    rcases task_step hjobs hs hbusy with hsame | ha
    · exact ⟨u, by rw [hsame, hjob], by rw [hsame, hbusy]⟩
    · refine ⟨u, (job_step hs ha).trans hjob, ?_⟩
      rcases ha with rfl | rfl | rfl
      · rcases h.advance hinv hjobs hhold hconf hjob hbusy hs with ⟨-, hdone⟩ | ⟨hbusy', -⟩
        · simp [hdone] at hrow
        · exact hbusy'
      · exact absurd hjob (herr u rfl)
      · -- a worker that dies in the first transaction has not committed the claim
        have hfirst : (w.tasks u).phase = .first := by simpa [claimsInTime, hjob] using hc
        rcases howned.claimable u hjob (howned.active u hjob hbusy) hfirst with hold | hold <;> simp [hrow'] at hold
  · rcases h.rows_commit hjobs hjob hst with ⟨rfl, -⟩ | ⟨-, hrow'⟩
    · exact ⟨u, by simpa [commit, setTask, Task.ended] using hjob,
        by simp [commit, setTask, Task.ended, TaskStage.resting]⟩
    · simp [hrow'] at hrow

include hinv hjobs howned hhold hconf hc herr hs in
theorem Going.step (h : Going r w) : Going r w' where
  row := by
    rcases h.row_step hinv hjobs hs with hsame | ⟨u, next, hjob, hst, rfl⟩
    · rw [hsame]
      exact h.row
    · rcases h.rows_commit hjobs hjob hst with ⟨-, hrow⟩ | ⟨-, hrow⟩
      · exact .inr (.inl hrow)
      · exact .inr (.inr hrow)
  course _ hjob hbusy := h.course_step hinv hjobs hhold hconf herr hs hjob hbusy
  pending hrow := h.pending_step hinv hjobs hhold hconf herr hs hrow
  running hrow := h.running_step hinv hjobs howned hhold hconf hc herr hs hrow

end

/-! ## Before the request is accepted -/

def Request.Published (R : Request) : Prop := R.stage = .cancel ∨ R.thread = .returned → R.published = true

theorem published_advanceRequest (h : (w.requests r).Published) (hs : w.advanceRequest r = some w') :
    (w'.requests r).Published := by
  -- a request goes on to `_cancel_organization` only when the thread has returned
  have hset : ∀ (W : World) (R : Request), R.published = (w.requests r).published →
      (R.stage = .cancel ∨ R.thread = .returned → (w.requests r).thread = .returned) →
      ((W.setRequest r R).requests r).Published := by
    intro W R hpub hback
    rw [show (W.setRequest r R).requests r = R from update_self _ _ _]
    exact fun hR => hpub.trans (h (.inr (hback hR)))
  unfold advanceRequest at hs
  split at hs
  case h_1 | h_2 | h_3 =>
    cases hs
    split_ifs <;> exact hset w _ rfl (by simp)
  case h_4 =>
    cases hs
    exact hset w _ rfl (by simp)
  case h_5 =>
    split at hs
    case h_1 hreturned =>
      cases hs
      exact hset w _ rfl fun _ => hreturned
    case h_2 =>
      cases hs
      exact hset w _ rfl (by simp)
    all_goals cases hs
  case h_6 | h_7 =>
    cases hs
    exact hset _ _ rfl (by simp [createJob])
  all_goals cases hs

theorem published_step (h : ∀ r, (w.requests r).Published) (hs : w.step S a = some w') (r : Nat) :
    (w'.requests r).Published := by
  have hset : ∀ (W : World) (r' : Nat) (R : Request), W.requests = update w.requests r' R → R.Published →
      (W.requests r).Published := by
    intro W r' R hW hR
    rw [hW]
    by_cases hr : r = r'
    · rw [hr, update_self]
      exact hR
    · rw [update_of_ne hr]
      exact h r
  cases a with
  | request =>
    cases hs
    exact hset _ _ _ rfl (by simp [Request.Published])
  | advanceRequest r' =>
    obtain ⟨jobs, cancelled, R, rfl, -⟩ := advanceRequest_eq hs
    refine hset _ r' R rfl ?_
    simpa [setRequest] using published_advanceRequest (h r') hs
  | timeout r' =>
    obtain ⟨-, rfl⟩ := of_ite_some hs
    exact hset _ r' _ rfl fun hR => h r' (.inr (hR.resolve_left (by simp)))
  | failRequest r' =>
    obtain ⟨-, rfl⟩ := of_ite_none hs
    exact hset _ r' _ rfl fun hR => h r' (.inr (hR.resolve_left (by simp)))
  | publish r' =>
    obtain ⟨-, rfl⟩ := of_ite_some hs
    exact hset _ r' _ rfl fun _ => rfl
  | returnThread r' =>
    obtain ⟨⟨-, hpub⟩, rfl⟩ := of_ite_some hs
    exact hset _ r' _ rfl fun _ => hpub
  | raiseThread r' =>
    obtain ⟨-, rfl⟩ := of_ite_some hs
    exact hset _ r' _ rfl fun hR => h r' (.inl (hR.resolve_right (by simp)))
  | _ =>
    rw [((step_frame hs).requests (by simp [Action.party])).1]
    exact h r

theorem published_of_reachable (h : (machine S).Reachable w) (r : Nat) : (w.requests r).Published := by
  refine h.invariant (P := fun w => ∀ r, (w.requests r).Published) (fun v h₀ r => ?_)
    (fun _ _ _ hi hs => published_step hi hs) r
  obtain ⟨-, -, -, -, -, -, -, hrequests, -⟩ := h₀
  simp [hrequests, Request.Published]

theorem row_of_step (hjobs : JobInv w) (hs : w.step S a = some w') (hrow : w'.jobs.rows r = none) :
    w.jobs.rows r = none := by
  rcases step_committed hs with ⟨u, next, -, -, rfl⟩ | ⟨r', status, -, hcreate⟩ | hsame
  · by_contra hne
    exact (hjobs.rows_commit u r).mpr hne hrow
  · by_cases hr : r = r'
    · simp [hcreate.rows, hr] at hrow
    · rwa [hcreate.rows, update_of_ne hr] at hrow
  · rwa [hsame.rows] at hrow

def Ahead (r : Nat) (w : World) : Prop := w.jobs.rows r = none → (w.requests r).published = true → Alive r w

theorem Ahead.step (h : Ahead r w) (hjobs : JobInv w) (howned : Owned r w) (hc : claimsInTime r w a = true)
    (herr : ∀ u, a = .error u → (w.tasks u).job ≠ r) (hs : w.step S a = some w') : Ahead r w' := by
  intro hrow hpub
  have hrow' := row_of_step hjobs hs hrow
  by_cases ha : a = .publish r
  · subst ha
    obtain ⟨-, rfl⟩ := of_ite_some hs
    exact .inl mem_cons_self
  · have hpub' : (w.requests r).published = true := by
      by_contra hnot
      simp [unpublished_step hs ha (by simpa using hnot)] at hpub
    refine (h hrow' hpub').step hjobs hs herr ?_
    rintro u rfl hjob hactive
    rcases active_cases hactive with hclaim | hbusy
    · simp [claimsInTime, hjob, hclaim, hrow'] at hc
    · exact absurd ⟨u, hjob, hbusy⟩ (howned.not_busy hrow')

theorem Ahead.accepted (h : Ahead r w) (hjobs : JobInv w) (howned : Owned r w) (hpub : (w.requests r).Published)
    (hstage : (w.requests r).stage = .cancel) (hs : w.step S (.advanceRequest r) = some w') : Going r w' := by
  have hrow : w.jobs.rows r = none := by
    by_contra hrow
    have hans := hjobs.answered r hrow
    simp [hstage] at hans
  have halive := h hrow (hpub (.inl hstage))
  have hnot := howned.not_busy hrow
  simp only [World.step, World.advanceRequest, hstage, some.injEq] at hs
  subst hs
  have hrow' : (w.createJob r .pending).jobs.rows r = some .pending := by simp [createJob]
  exact ⟨.inl hrow', fun u hjob hbusy => absurd ⟨u, hjob, hbusy⟩ hnot, fun _ => halive,
    fun hrunning => absurd (hrow'.symm.trans hrunning) (by decide)⟩

end IbexHarness.OrgDeletion
