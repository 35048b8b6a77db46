import IbexHarness.OrgDeletion.Lemmas.Jobs
import IbexHarness.OrgDeletion.Lemmas.Locks

/-! The claim of a job is a status without an owner. -/

namespace IbexHarness.OrgDeletion

open Lib Function Option

variable {S : Settings} {w w' : World} {t j : Nat}

def noEarlyError (j : Nat) (w : World) : Action → Bool
  | .error t => (w.tasks t).job ≠ j || (w.tasks t).phase ≠ Phase.first
  | _ => true

structure Owned (j : Nat) (w : World) : Prop where
  active : ∀ t, (w.tasks t).job = j → (w.tasks t).stage.resting = false → (w.tasks t).claimed = true
  claimable : ∀ t, (w.tasks t).job = j → (w.tasks t).claimed = true → (w.tasks t).phase = .first →
    w.jobs.rows j = some .pending ∨ w.jobs.rows j = some .failed
  running : ∀ t, (w.tasks t).job = j → (w.tasks t).claimed = true → (w.tasks t).phase ≠ .first →
    w.jobs.rows j = some .running
  unique : ∀ t t', (w.tasks t).job = j → (w.tasks t').job = j → (w.tasks t).claimed = true →
    (w.tasks t').claimed = true → t = t'

theorem Owned.initial (h : w.initial) : Owned j w := by
  obtain ⟨-, -, -, -, -, -, -, -, htasks, -⟩ := h
  have hclaimed : ∀ t, (w.tasks t).claimed ≠ true := by simp [htasks, Task.idle]
  refine ⟨fun t _ hrest => ?_, fun t _ hc => absurd hc (hclaimed t), fun t _ hc => absurd hc (hclaimed t),
    fun t _ _ _ hc => absurd hc (hclaimed t)⟩
  simp [htasks, Task.idle, TaskStage.resting] at hrest

section

variable (h : Owned j w)
include h

theorem Owned.row_of_claimed (hjob : (w.tasks t).job = j) (hc : (w.tasks t).claimed = true) :
    w.jobs.rows j = some .pending ∨ w.jobs.rows j = some .failed ∨ w.jobs.rows j = some .running := by
  by_cases hfirst : (w.tasks t).phase = .first
  · rcases h.claimable t hjob hc hfirst with hrow | hrow
    · exact .inl hrow
    · exact .inr (.inl hrow)
  · exact .inr (.inr (h.running t hjob hc hfirst))

theorem Owned.same (htasks : w'.tasks = w.tasks) (hrows : w'.jobs.rows j = w.jobs.rows j) : Owned j w' := by
  refine ⟨?_, ?_, ?_, ?_⟩
  · simpa [htasks] using h.active
  · simpa [htasks, hrows] using h.claimable
  · simpa [htasks, hrows] using h.running
  · simpa [htasks] using h.unique

theorem Owned.setTask {W : Tables} {T : Task} (hrows : W.jobs.rows j = w.jobs.rows j)
    (hactive : T.job = j → T.stage.resting = false → T.claimed = true)
    (hclaimed : T.job = j → T.claimed = true → (w.tasks t).job = j ∧ (w.tasks t).claimed = true ∧
      (T.phase = .first ↔ (w.tasks t).phase = .first)) :
    Owned j ({ w with toTables := W }.setTask t T) := by
  -- every owner afterwards was an owner before, in the same phase
  have hback : ∀ t', (update w.tasks t T t').job = j → (update w.tasks t T t').claimed = true →
      (w.tasks t').job = j ∧ (w.tasks t').claimed = true ∧
        ((update w.tasks t T t').phase = .first ↔ (w.tasks t').phase = .first) := by
    intro t' hj hc
    by_cases ht : t' = t
    · subst ht
      rw [update_self] at hj hc ⊢
      exact hclaimed hj hc
    · rw [update_of_ne ht] at hj hc ⊢
      exact ⟨hj, hc, .rfl⟩
  refine ⟨fun t' hj hrest => ?_, fun t' hj hc hfirst => ?_, fun t' hj hc hfirst => ?_, fun t' t'' hj hj' hc hc' => ?_⟩
  · by_cases ht : t' = t
    · subst ht
      simp only [World.setTask, update_self] at hj hrest ⊢
      exact hactive hj hrest
    · simp only [World.setTask, update_of_ne ht] at hj hrest ⊢
      exact h.active t' hj hrest
  · obtain ⟨hj, hc, hphase⟩ := hback t' hj hc
    exact hrows ▸ h.claimable t' hj hc (hphase.mp hfirst)
  · obtain ⟨hj, hc, hphase⟩ := hback t' hj hc
    exact hrows ▸ h.running t' hj hc (mt hphase.mpr hfirst)
  · obtain ⟨hj, hc, -⟩ := hback t' hj hc
    obtain ⟨hj', hc', -⟩ := hback t'' hj' hc'
    exact h.unique t' t'' hj hj' hc hc'

theorem Owned.raise (unreachable : Option Store)
    (hself : (w.tasks t).job = j → (w.tasks t).claimed = true ∧ (w.tasks t).phase ≠ .first) :
    Owned j (w.raise t unreachable) := by
  rw [raise_eq]
  refine h.setTask rfl (fun hj _ => ?_) fun hj hc => ?_
  · obtain ⟨hc, hphase⟩ := hself hj
    simp [Task.raised, Task.ended, hc, hphase]
  · obtain ⟨hc, hphase⟩ := hself hj
    exact ⟨hj, hc, by simp [Task.raised, Task.ended, hphase]⟩

theorem Owned.crash (t : Nat) : Owned j (w.rollback t (w.tasks t).phase .done) := by
  refine h.setTask rfl nofun fun hj hc => ?_
  have hc : (w.tasks t).claimed = true ∧ (w.tasks t).phase ≠ .first := by simpa [Task.ended] using hc
  exact ⟨hj, hc.1, .rfl⟩

theorem Owned.not_claimed (hjobs : JobInv w) {jobs : RowStore Nat (Option JobStatus) Nat}
    (ha : w.jobs.acquire t j = some jobs) (hrow : w.jobs.rows j = some .pending ∨ w.jobs.rows j = some .failed)
    {u : Nat} (ht : u ≠ t) (hj : (w.tasks u).job = j) : (w.tasks u).claimed = false := by
  by_contra hc
  have hc : (w.tasks u).claimed = true := by simpa using hc
  by_cases hfirst : (w.tasks u).phase = .first
  · have hsteady := hjobs.steady u
    have hrest : (w.tasks u).stage.resting = false := by
      by_contra hrest
      have hnot := (hsteady.resting (by simpa using hrest)).2 hfirst
      exact absurd (hc.symm.trans hnot) (by decide)
    obtain ⟨-, status, hl, -⟩ := hsteady.first hfirst hrest
    have hlock : w.jobs.lock j = some u := (hjobs.jobLocks j u).mpr (by rw [← hj, hl]; rfl)
    unfold RowStore.acquire at ha
    split_ifs at ha with hfree
    simp [hlock, ht] at hfree
  · rcases hrow with hrow | hrow <;> exact absurd (hrow.symm.trans (h.running u hj hc hfirst)) (by decide)

theorem Owned.claim (hjobs : JobInv w) {next : TaskStage}
    (hst : (w.tasks t).statement S w.toTables = some (.claim next)) (hs : w.exec t (.claim next) = some w') :
    Owned j w' := by
  obtain ⟨jobs, ha, rfl⟩ := map_eq_some_iff.mp hs
  obtain ⟨hstage, rfl, hrow⟩ := issued_of_statement hst
  have hrows := RowStore.rows_of_acquire ha
  by_cases hj : (w.tasks t).job = j
  · subst hj
    have hnone := fun t' => h.not_claimed hjobs ha hrow (u := t')
    have hfirst : (w.tasks t).phase = .first := by simpa [hstage, TaskStage.fits] using (hjobs.steady t).fits
    have hself : ∀ t', (update w.tasks t { w.tasks t with
        stage := .lock, jobs := ((w.tasks t).job, some .running) :: (w.tasks t).jobs, claimed := true } t').job =
          (w.tasks t).job → (update w.tasks t { w.tasks t with
        stage := .lock, jobs := ((w.tasks t).job, some .running) :: (w.tasks t).jobs, claimed := true } t').claimed =
          true → t' = t := by
      intro t' hj hc
      by_contra ht
      rw [update_of_ne ht] at hj hc
      exact absurd (hc.symm.trans (hnone t' ht hj)) (by decide)
    refine ⟨fun t' hj hrest => ?_, fun t' hj hc _ => ?_, fun t' hj hc hphase => ?_, fun t' t'' hj hj' hc hc' => ?_⟩
    · by_cases ht : t' = t
      · subst ht
        simp [World.setTask]
      · simp only [World.setTask, update_of_ne ht] at hj hrest ⊢
        exact h.active t' hj hrest
    · exact hrows ▸ hrow
    · obtain rfl := hself t' hj hc
      exact absurd hfirst (by simpa [World.setTask] using hphase)
    · exact (hself t' hj hc).trans (hself t'' hj' hc').symm
  · exact h.setTask (by rw [hrows]) (fun heq => absurd heq hj) fun heq => absurd heq hj

theorem Owned.commit (hinv : Inv S w) (hjobs : JobInv w) {next : TaskStage}
    (hst : (w.tasks t).statement S w.toTables = some (.commit next)) : Owned j (w.commit t next) := by
  have hissued := issued_of_statement hst
  by_cases hj : (w.tasks t).job = j
  · have hrest : (w.tasks t).stage.resting = false := by rcases hissued with ⟨hs, -⟩ | ⟨hs, -⟩ <;> rw [hs] <;> rfl
    have hc := h.active t hj hrest
    have hself : ∀ t', ((w.commit t next).tasks t').job = j → ((w.commit t next).tasks t').claimed = true → t' = t := by
      intro t' hj' hc'
      by_contra ht
      simp only [World.commit, World.setTask, update_of_ne ht] at hj' hc'
      exact ht (h.unique t' t hj' hj hc' hc)
    have hactive : ∀ t', ((w.commit t next).tasks t').job = j → ((w.commit t next).tasks t').stage.resting = false →
        ((w.commit t next).tasks t').claimed = true := by
      intro t' hj' hrest'
      by_cases ht : t' = t
      · subst ht
        rcases hissued with ⟨-, rfl⟩ | ⟨-, rfl⟩
        · simpa [World.commit, World.setTask, Task.ended] using hc
        · simp [World.commit, World.setTask, Task.ended, TaskStage.resting] at hrest'
      · simp only [World.commit, World.setTask, update_of_ne ht] at hj' hrest' ⊢
        exact h.active t' hj' hrest'
    refine ⟨hactive, fun t' hj' hc' hfirst => ?_, fun t' hj' hc' _ => ?_, fun t' t'' hj' hj'' hc' hc'' => ?_⟩
    · obtain rfl := hself t' hj' hc'
      rcases hissued with ⟨-, rfl⟩ | ⟨-, rfl⟩
      · simp [World.commit, World.setTask, Task.ended] at hfirst
      · simp [World.commit, World.setTask, Task.ended] at hc'
    · obtain rfl := hself t' hj' hc'
      rcases hissued with ⟨hs, rfl⟩ | ⟨-, rfl⟩
      · have hfirst : (w.tasks t').phase = .first := by simpa [hs, TaskStage.fits] using (hjobs.steady t').fits
        obtain ⟨-, status, hl, hstatus⟩ := (hjobs.steady t').first hfirst hrest
        obtain rfl := hstatus (by simp [hs])
        rw [hj] at hl
        simp [World.commit, World.setTask, RowStore.commitAll, RowStore.rollback, hl]
      · simp [World.commit, World.setTask, Task.ended] at hc'
    · exact (hself t' hj' hc').trans (hself t'' hj'' hc'').symm
  · have hrow : (w.jobs.commitAll t (w.tasks t).jobs).rows j = w.jobs.rows j := by
      cases hl : (w.tasks t).jobs.lookup j with
      | none => simp [RowStore.commitAll, RowStore.rollback, hl]
      | some v => exact absurd ((hinv.tasks t).jobs j v hl).symm hj
    exact h.setTask hrow (fun heq => absurd heq hj) fun heq => absurd heq hj

theorem Owned.exec (hinv : Inv S w) (hjobs : JobInv w) {st : Statement}
    (hst : (w.tasks t).statement S w.toTables = some st) (hs : w.exec t st = some w') : Owned j w' := by
  have hsteady := hjobs.steady t
  cases st with
  | claim next => exact h.claim hjobs hst hs
  | commit next =>
    cases hs
    exact h.commit hinv hjobs hst
  | raise unreachable =>
    cases hs
    refine h.raise unreachable fun hj => ?_
    obtain ⟨-, hne⟩ := fits_statement (hinv.tasks t) hst
    rcases issued_of_statement hst with ⟨s, hs, -⟩ | ⟨s, hs', hs, -⟩
    · have hs' : s ≠ .postgres := fun heq => hne (heq ▸ hs)
      refine ⟨h.active t hj (by rw [hs]; rfl), ?_⟩
      have hfits := hsteady.fits
      simp only [hs, TaskStage.fits, hs', if_false, decide_eq_true_eq] at hfits
      simp [hfits]
    · refine ⟨h.active t hj (by rw [hs]; rfl), ?_⟩
      have hfits := hsteady.fits
      simp only [hs, TaskStage.fits, hs', if_false, decide_eq_true_eq] at hfits
      simp [hfits]
  | read next | noHold next | runStage s next =>
    cases hs
    refine h.setTask rfl (fun hj hrest => ?_) fun hj hc => ⟨hj, hc, .rfl⟩
    exact h.active t hj (busy_of_next hsteady.fits hst rfl (by simp) hrest)
  | advisoryLock next | certify next | upsertReceipt s r next =>
    obtain ⟨_, -, rfl⟩ := map_eq_some_iff.mp hs
    refine h.setTask rfl (fun hj hrest => ?_) fun hj hc => ⟨hj, hc, .rfl⟩
    exact h.active t hj (busy_of_next hsteady.fits hst rfl (by simp) hrest)
  | updateJob status next =>
    obtain ⟨jobs, ha, rfl⟩ := map_eq_some_iff.mp hs
    refine h.setTask (by rw [RowStore.rows_of_acquire ha]) (fun hj _ => ?_) fun hj hc => ⟨hj, hc, .rfl⟩
    obtain ⟨hs, -⟩ := issued_of_statement hst
    exact h.active t hj (by rw [hs]; rfl)

theorem Owned.advanceRequest (hjobs : JobInv w) {r : Nat} (hs : w.advanceRequest r = some w') : Owned j w' := by
  obtain ⟨jobs, cancelled, R, heq, -⟩ := advanceRequest_eq hs
  have htasks : w'.tasks = w.tasks := by rw [heq]; rfl
  rcases advanceRequest_committed hs with ⟨status, hcreate⟩ | hsame
  · by_cases hr : j = r
    · subst hr
      -- the row appears when its request ends, so nobody has claimed it
      have hrow : w.jobs.rows j = none := by
        by_contra hrow
        have hans := hjobs.answered j hrow
        rcases hcreate.stage with ⟨-, hstage, -⟩ | ⟨-, hstage, -⟩ <;> simp [hstage] at hans
      have hnone : ∀ t, (w.tasks t).job = j → (w.tasks t).claimed ≠ true := by
        intro t hj hc
        have hclaimed := h.row_of_claimed hj hc
        simp [hrow] at hclaimed
      refine ⟨?_, fun t hj hc => ?_, fun t hj hc => ?_, fun t _ hj _ hc => ?_⟩
      · simpa [htasks] using h.active
      all_goals
        rw [htasks] at hj hc
        exact absurd hc (hnone t hj)
    · exact h.same htasks (by rw [hcreate.rows, update_of_ne hr])
  · exact h.same htasks (by rw [hsame.rows])

theorem Owned.step (hinv : Inv S w) (hjobs : JobInv w) {a : Action} (hc : noEarlyError j w a = true)
    (hs : w.step S a = some w') : Owned j w' := by
  cases a with
  | advance t =>
    obtain ⟨st, hst, hs⟩ := bind_eq_some_iff.mp hs
    exact h.exec hinv hjobs hst hs
  | advanceRequest r => exact h.advanceRequest hjobs hs
  | error t =>
    obtain ⟨hactive, rfl⟩ := of_ite_some hs
    refine h.raise none fun hj => ?_
    have hphase : (w.tasks t).phase ≠ .first := by simpa [noEarlyError, hj] using hc
    simp only [World.active, Bool.and_eq_true, decide_eq_true_eq] at hactive
    refine ⟨h.active t hj ?_, hphase⟩
    cases hstage : (w.tasks t).stage with
    | idle => exact absurd hstage hactive.1
    | done => exact absurd hstage hactive.2
    | claim =>
      have hfits := (hjobs.steady t).fits
      rw [hstage] at hfits
      exact absurd (by simpa [TaskStage.fits] using hfits) hphase
    | _ => rfl
  | crash t =>
    obtain ⟨-, rfl⟩ := of_ite_some hs
    exact (h.crash t).same rfl rfl
  | deliver i =>
    obtain ⟨-, rfl⟩ := of_ite_some hs
    have hset : Owned j (w.setTask w.nextTask (.start i)) := h.setTask rfl (fun _ hr => by cases hr)
      fun _ hc => by cases hc
    exact hset.same rfl rfl
  | _ =>
    exact h.same ((step_frame hs).tasks (by simp [Action.party])).1
      (by rw [(step_frame hs).jobs (by simp [Action.party]) (by simp)])

end

theorem owned_of_reachable (h : ((machine S).restrict (noEarlyError j)).Reachable w) : Owned j w := by
  have hall : Inv S w ∧ JobInv w ∧ Owned j w := by
    refine h.invariant (P := fun w => Inv S w ∧ JobInv w ∧ Owned j w)
      (fun _ h₀ => ⟨.initial h₀, .initial h₀, .initial h₀⟩) ?_
    rintro v a v' ⟨hinv, hjobs, howned⟩ hs
    obtain ⟨hc, hs⟩ := Machine.restrict_step_eq_some.mp hs
    exact ⟨hinv.step hs, hjobs.step hs, howned.step hinv hjobs hc hs⟩
  exact hall.2.2

end IbexHarness.OrgDeletion
