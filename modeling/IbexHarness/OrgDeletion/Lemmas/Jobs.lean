import IbexHarness.OrgDeletion.Lemmas.Commits
import IbexHarness.OrgDeletion.Lemmas.Stages

/-! A job is committed by its request, which has ended then. -/

namespace IbexHarness.OrgDeletion

open Lib Function List Option World TaskStage

def TaskStage.fits : TaskStage → Phase → Bool
  | .idle, p | .claim, p | .lock, p | .checkHold, p | .auditBlocked, p | .commitPurge, p => p = .first
  | .receipt s, p | .requireLock s, p | .requireHold s, p | .run s, p | .upsert s _, p =>
    p = if s = .postgres then .first else .second
  | .publish, p | .finalize _, p | .certificate, p => p = .second
  | .finish .holdBlocked, p => p = .first
  | .finish .succeeded, p => p = .second
  | .finish _, p => p ≠ .first
  | .failReceipt _, p => p = .failing
  | .commit, _ | .done, _ => true

def TaskStage.resting : TaskStage → Bool
  | .idle | .claim | .done => true
  | _ => false

def Statement.next : Statement → Option TaskStage
  | .read next | .advisoryLock next | .noHold next | .claim next | .updateJob _ next | .upsertReceipt _ _ next
  | .runStage _ next | .certify next => some next
  | .raise _ | .commit _ => none

variable {S : Settings} {w w' : World} {t : Nat} {T : Task} {st : Statement} {next : TaskStage}

variable {W : Tables} {r : Nat}

theorem fits_after (s : Store) {p : Phase} (h : p = if s = .postgres then Phase.first else .second) :
    s.after.fits p = true := by
  cases s <;> simpa [Store.after, fits] using h

theorem resting_after (s : Store) : s.after.resting = false := by
  cases s <;> rfl

theorem statement_next (h : T.stage.fits T.phase = true) (hst : T.statement S W = some st)
    (hn : st.next = some next) :
    T.stage = .claim ∧ (st = .claim .lock ∨ st = .read .done) ∨
      T.stage.resting = false ∧ next.resting = false ∧ next.fits T.phase = true := by
  have hissues := issues_of_statement hst
  generalize T.stage = stage at h hissues
  cases hissues with
  | claim | unclaimed => simp
  | kept s | upsert s =>
    cases hn
    exact .inr ⟨rfl, resting_after s, fits_after s (by simpa [fits] using h)⟩
  | finalized s =>
    cases hn
    refine .inr ⟨rfl, ?_⟩
    cases s <;> exact ⟨rfl, by simpa [Store.afterFinalize, fits] using h⟩
  | unconfigured | refused | commitPurge | commit => cases hn
  | _ =>
    cases hn
    exact .inr ⟨rfl, rfl, by simp_all [fits]⟩

theorem busy_of_next (h : T.stage.fits T.phase = true) (hst : T.statement S W = some st)
    (hn : st.next = some next) (hclaim : st ≠ .claim .lock) (hnext : next.resting = false) : T.stage.resting =
      false := by
  rcases statement_next h hst hn with ⟨-, hst' | rfl⟩ | ⟨hr, -⟩
  · exact absurd hst' hclaim
  · cases hn
    cases hnext
  · exact hr

/-- At which stage a statement is issued, and what the transaction has seen then. -/
def Issued (S : Settings) (W : Tables) (T : Task) : Statement → Prop
  | .claim next =>
    T.stage = .claim ∧ next = .lock ∧ (W.jobs.rows T.job = some .pending ∨ W.jobs.rows T.job = some .failed)
  | .updateJob status next => T.stage = .finish status ∧ next = .commit ∧ W.jobs.rows T.job ≠ none
  | .runStage s _ => T.stage = .run s
  | .raise _ => (∃ s, T.stage = .requireHold s ∧ W.hold = true) ∨
    ∃ s, s ≠ .postgres ∧ T.stage = .receipt s ∧ S.deployed s = true ∧ S.configured s = false
  | .commit next => T.stage = .commitPurge ∧ next = .publish ∨ T.stage = .commit ∧ next = .done
  | .read _ | .advisoryLock _ | .noHold _ | .upsertReceipt _ _ _ | .certify _ => True

section

variable (hst : T.statement S W = some st)
include hst

theorem issued_of_statement : Issued S W T st := by
  have hissues := issues_of_statement hst
  generalize hcur : T.stage = stage at hissues
  cases hissues with
  | claim h => exact ⟨hcur, rfl, h⟩
  | refused s hh => exact .inl ⟨s, hcur, hh⟩
  | unconfigured s hs hd hc => exact .inr ⟨s, hs, hcur, hd, hc⟩
  | run => exact hcur
  | finish status hrow => exact ⟨hcur, rfl, isSome_iff_ne_none.mp hrow⟩
  | commitPurge => exact .inl ⟨hcur, rfl⟩
  | commit => exact .inr ⟨hcur, rfl⟩
  | _ => trivial

theorem stage_ne_commit (hn : st.next = some next) : T.stage ≠ .commit := by
  intro hcur
  unfold Task.statement at hst
  rw [hcur] at hst
  cases hst
  cases hn

theorem stage_ne_idle : T.stage ≠ .idle := by
  intro hcur
  simp [Task.statement, hcur] at hst

end

structure Steady (T : Task) : Prop where
  fits : T.stage.fits T.phase = true
  resting : T.stage.resting = true → T.jobs = [] ∧ (T.phase = .first → T.claimed = false)
  first : T.phase = .first → T.stage.resting = false →
    T.claimed = true ∧ ∃ status, T.jobs.lookup T.job = some (some status) ∧ (T.stage ≠ .commit → status = .running)
  purge : T.purge ≠ none → T.jobs.lookup T.job ≠ none

theorem Steady.idle : Steady .idle := ⟨rfl, fun _ => ⟨rfl, fun _ => rfl⟩, nofun, nofun⟩

theorem Steady.start (j : Nat) : Steady (.start j) := ⟨rfl, fun _ => ⟨rfl, fun _ => rfl⟩, nofun, nofun⟩

theorem Steady.move {T' : Task} (h : Steady T) (hc : T.stage ≠ .commit) (hr : T.stage.resting = false)
    (hn : T'.stage.resting = false) (hf : T'.stage.fits T.phase = true) (hphase : T'.phase = T.phase)
    (hjob : T'.job = T.job) (hclaimed : T'.claimed = T.claimed) (hjobs : T'.jobs = T.jobs)
    (hpurge : T'.purge ≠ none → T.jobs.lookup T.job ≠ none) : Steady T' where
  fits := hphase ▸ hf
  resting hrest := absurd (hn.symm.trans hrest) (by decide)
  first hfirst _ := by
    obtain ⟨hcl, status, hl, hstatus⟩ := h.first (hphase ▸ hfirst) hr
    exact ⟨hclaimed.trans hcl, status, by rw [hjobs, hjob, hl], fun _ => hstatus hc⟩
  purge hp := by
    rw [hjobs, hjob]
    exact hpurge hp

theorem Steady.raised (T : Task) (unreachable : Option Store) : Steady (T.raised unreachable) := by
  unfold Task.raised Task.ended
  split_ifs
  · exact ⟨rfl, fun _ => ⟨rfl, nofun⟩, nofun, nofun⟩
  · cases unreachable with
    | none | some => exact ⟨rfl, fun _ => ⟨rfl, nofun⟩, nofun, nofun⟩

theorem Steady.crashed (T : Task) (claimed : Bool) (hc : T.phase = .first → claimed = false) :
    Steady (T.ended T.phase .done claimed) :=
  ⟨rfl, fun _ => ⟨rfl, hc⟩, nofun, nofun⟩

theorem Steady.after (h : Steady T) (hst : T.statement S W = some st) (memories : List Nat) :
    Steady (T.after memories st) := by
  cases st with
  | read next =>
    rcases statement_next h.fits hst rfl with ⟨hc, hst' | hst'⟩ | ⟨hr, hn, hf⟩
    · cases hst'
    · cases hst'
      exact ⟨rfl, fun _ => h.resting (by rw [hc]; rfl), nofun, h.purge⟩
    · exact h.move (stage_ne_commit hst rfl) hr hn hf rfl rfl rfl rfl h.purge
  | advisoryLock next | noHold next | upsertReceipt s r next | certify next =>
    rcases statement_next h.fits hst rfl with ⟨hc, hst' | hst'⟩ | ⟨hr, hn, hf⟩
    · cases hst'
    · cases hst'
    · exact h.move (stage_ne_commit hst rfl) hr hn hf rfl rfl rfl rfl h.purge
  | runStage s next =>
    rcases statement_next h.fits hst rfl with ⟨hc, hst' | hst'⟩ | ⟨hr, hn, hf⟩
    · cases hst'
    · cases hst'
    · refine h.move (stage_ne_commit hst rfl) hr hn hf rfl rfl rfl rfl fun hp => ?_
      by_cases hs : s = .postgres
      · have hfirst : T.phase = .first := by
          have hstage : T.stage = .run s := issued_of_statement hst
          simpa [hstage, TaskStage.fits, hs] using h.fits
        obtain ⟨-, status, hl, -⟩ := h.first hfirst hr
        simp [hl]
      · exact h.purge (by simpa [Task.after, hs] using hp)
  | claim next =>
    obtain ⟨hstage, rfl, -⟩ := issued_of_statement hst
    have hfirst : T.phase = .first := by simpa [hstage, TaskStage.fits] using h.fits
    exact ⟨by simp [Task.after, TaskStage.fits, hfirst], nofun,
      fun _ _ => ⟨rfl, .running, by simp [Task.after], fun _ => rfl⟩, fun _ => by simp [Task.after]⟩
  | updateJob status next =>
    obtain ⟨hstage, rfl, -⟩ := issued_of_statement hst
    refine ⟨rfl, nofun, fun hfirst _ => ?_, fun _ => by simp [Task.after]⟩
    exact ⟨(h.first hfirst (by rw [hstage]; rfl)).1, status, by simp [Task.after], fun hne => absurd rfl hne⟩
  | raise unreachable => exact .raised T unreachable
  | commit next =>
    rcases issued_of_statement hst with ⟨-, rfl⟩ | ⟨-, rfl⟩
    · exact ⟨rfl, nofun, nofun, nofun⟩
    · exact .crashed T _ fun _ => by simp

structure JobInv (w : World) : Prop where
  tasks : ∀ t, w.nextTask ≤ t → w.tasks t = .idle
  requests : ∀ r, w.nextRequest ≤ r → w.requests r = ⟨.idle, .none, false⟩
  answered : ∀ r, w.jobs.rows r ≠ none → (w.requests r).stage = .accepted ∨ (w.requests r).stage = .refused
  steady : ∀ t, Steady (w.tasks t)
  drafts : ∀ t j v, (w.tasks t).jobs.lookup j = some v → v ≠ none ∧ w.jobs.rows j ≠ none
  jobLocks : w.jobs.Tracks fun t => (w.tasks t).jobs
  receiptLocks : w.receipts.Tracks fun t => (w.tasks t).receipts
  queued : ∀ j ∈ w.queue, (w.requests j).published = true
  delivered : ∀ t, (w.tasks t).stage ≠ .idle → (w.requests (w.tasks t).job).published = true

theorem jobs_setTask (w : World) (t : Nat) (T : Task) :
    (fun t' => ((w.setTask t T).tasks t').jobs) = update (fun t' => (w.tasks t').jobs) t T.jobs :=
  funext fun t' => Function.apply_update (fun _ => Task.jobs) w.tasks t T t'

theorem receipts_setTask (w : World) (t : Nat) (T : Task) :
    (fun t' => ((w.setTask t T).tasks t').receipts) = update (fun t' => (w.tasks t').receipts) t T.receipts :=
  funext fun t' => Function.apply_update (fun _ => Task.receipts) w.tasks t T t'

theorem JobInv.setTask (h : JobInv w) (hidle : (w.tasks t).stage ≠ .idle) (hjob : T.job = (w.tasks t).job)
    (hrows : ∀ j, W.jobs.rows j ≠ none ↔ w.jobs.rows j ≠ none) (hsteady : Steady T)
    (hdrafts : ∀ j v, T.jobs.lookup j = some v → v ≠ none ∧ w.jobs.rows j ≠ none)
    (hjobs : W.jobs.Tracks (update (fun t' => (w.tasks t').jobs) t T.jobs))
    (hreceipts : W.receipts.Tracks (update (fun t' => (w.tasks t').receipts) t T.receipts)) :
    JobInv ({ w with toTables := W }.setTask t T) where
  tasks t' ht' := by
    have hne : t' ≠ t := by
      rintro rfl
      exact hidle (by rw [h.tasks t' ht']; rfl)
    exact (update_of_ne hne _ _).trans (h.tasks t' ht')
  requests := h.requests
  answered r hr := h.answered r ((hrows r).mp hr)
  steady t' := by
    by_cases ht : t' = t
    · subst ht
      simpa [setTask] using hsteady
    · simpa [World.setTask, ht] using h.steady t'
  drafts t' j v hl := by
    have hkeep : v ≠ none ∧ w.jobs.rows j ≠ none := by
      by_cases ht : t' = t
      · subst ht
        exact hdrafts j v (by simpa [setTask] using hl)
      · exact h.drafts t' j v (by simpa [World.setTask, ht] using hl)
    exact ⟨hkeep.1, (hrows j).mpr hkeep.2⟩
  jobLocks := by
    rw [jobs_setTask]
    exact hjobs
  receiptLocks := by
    rw [receipts_setTask]
    exact hreceipts
  queued := h.queued
  delivered t' ht' := by
    by_cases ht : t' = t
    · subst ht
      simpa [setTask, hjob] using h.delivered t' hidle
    · simpa [World.setTask, ht] using h.delivered t' (by simpa [World.setTask, ht] using ht')

theorem drafts_cons {rows : Nat → Option JobStatus} {jobs : List (Nat × Option JobStatus)} {j : Nat}
    {status : JobStatus}
    (h : ∀ j v, jobs.lookup j = some v → v ≠ none ∧ rows j ≠ none) (hj : rows j ≠ none) :
    ∀ j' v, List.lookup j' ((j, some status) :: jobs) = some v → v ≠ none ∧ rows j' ≠ none := by
  intro j' v hl
  rw [lookup_cons] at hl
  by_cases heq : j' = j
  · subst heq
    simp only [beq_self_eq_true, some.injEq] at hl
    exact ⟨hl ▸ nofun, hj⟩
  · simp only [beq_eq_false_iff_ne.mpr heq] at hl
    exact h j' v hl

section

variable (h : JobInv w)
include h

theorem JobInv.rollback (hidle : (w.tasks t).stage ≠ .idle)
    (hjobs : W.jobs = w.jobs.rollback t) (hreceipts : W.receipts = w.receipts.rollback t) (hsteady : Steady T)
    (hjob : T.job = (w.tasks t).job) (hnil : T.jobs = []) (hnil' : T.receipts = []) :
    JobInv ({ w with toTables := W }.setTask t T) := by
  refine h.setTask hidle hjob (fun j => by rw [hjobs]; rfl) hsteady (by simp [hnil]) ?_ ?_
  · rw [hjobs, hnil]
    exact h.jobLocks.rollback t
  · rw [hreceipts, hnil']
    exact h.receiptLocks.rollback t

theorem JobInv.raise (hidle : (w.tasks t).stage ≠ .idle) (unreachable : Option Store) :
    JobInv (w.raise t unreachable) := by
  rw [raise_eq]
  exact h.rollback hidle rfl rfl (.raised _ _) rfl rfl rfl

theorem JobInv.rows_commit (t : Nat) (j : Nat) :
    (w.jobs.commitAll t (w.tasks t).jobs).rows j ≠ none ↔ w.jobs.rows j ≠ none := by
  simp only [RowStore.commitAll, RowStore.rollback]
  cases hl : (w.tasks t).jobs.lookup j with
  | none => simp
  | some v => simp [h.drafts t j v hl]

theorem JobInv.exec (hst : (w.tasks t).statement S w.toTables = some st) (hs : w.exec t st = some w') :
    JobInv w' := by
  have hidle := stage_ne_idle hst
  have hsteady := (h.steady t).after hst w.memories
  have hjobs : w.jobs.Tracks (update (fun t' => (w.tasks t').jobs) t (w.tasks t).jobs) := by
    simpa using h.jobLocks
  have hreceipts : w.receipts.Tracks (update (fun t' => (w.tasks t').receipts) t (w.tasks t).receipts) := by
    simpa using h.receiptLocks
  cases st with
  | read next | noHold next | runStage s next =>
    cases hs
    exact h.setTask hidle rfl (fun _ => .rfl) hsteady (h.drafts t) hjobs hreceipts
  | advisoryLock next | certify next =>
    obtain ⟨lock, -, rfl⟩ := map_eq_some_iff.mp hs
    exact h.setTask hidle rfl (fun _ => .rfl) hsteady (h.drafts t) hjobs hreceipts
  | upsertReceipt s r next =>
    obtain ⟨receipts, ha, rfl⟩ := map_eq_some_iff.mp hs
    exact h.setTask hidle rfl (fun _ => .rfl) hsteady (h.drafts t) hjobs (h.receiptLocks.acquire ha _)
  | claim next =>
    obtain ⟨jobs, ha, rfl⟩ := map_eq_some_iff.mp hs
    obtain ⟨-, -, hrow⟩ := issued_of_statement hst
    have hrow : w.jobs.rows (w.tasks t).job ≠ none := by rcases hrow with hrow | hrow <;> simp [hrow]
    exact h.setTask hidle rfl (fun j => by rw [RowStore.rows_of_acquire ha]) hsteady (drafts_cons (h.drafts t) hrow)
      (h.jobLocks.acquire ha _) hreceipts
  | updateJob status next =>
    obtain ⟨jobs, ha, rfl⟩ := map_eq_some_iff.mp hs
    obtain ⟨-, -, hrow⟩ := issued_of_statement hst
    exact h.setTask hidle rfl (fun j => by rw [RowStore.rows_of_acquire ha]) hsteady (drafts_cons (h.drafts t) hrow)
      (h.jobLocks.acquire ha _) hreceipts
  | raise unreachable =>
    cases hs
    exact h.raise hidle unreachable
  | commit next =>
    cases hs
    exact h.setTask hidle rfl (h.rows_commit t) hsteady nofun (h.jobLocks.commitAll t _) (h.receiptLocks.commitAll t _)

section

variable {R : Request} (hnew : w.requests r ≠ ⟨.idle, .none, false⟩)
  (hpublished : (w.requests r).published = true → R.published = true)
include hnew hpublished

theorem JobInv.setRequest {jobs : RowStore Nat (Option JobStatus) Nat} {cancelled : Bool}
    (hlock : jobs.lock = w.jobs.lock) (hrows : ∀ j, j ≠ r → jobs.rows j = w.jobs.rows j)
    (hrow : w.jobs.rows r ≠ none → jobs.rows r ≠ none)
    (hanswered : jobs.rows r ≠ none → R.stage = .accepted ∨ R.stage = .refused) :
    JobInv ({ w with jobs, cancelled }.setRequest r R) := by
  have hpub : ∀ j, (w.requests j).published = true → (update w.requests r R j).published = true := by
    intro j hj
    by_cases hjr : j = r
    · subst hjr
      simpa using hpublished hj
    · simpa [hjr] using hj
  have hlocks : jobs.Tracks fun t => (w.tasks t).jobs := by
    intro k t
    rw [hlock]
    exact h.jobLocks k t
  refine ⟨h.tasks, fun r' hr' => ?_, fun r' hr' => ?_, h.steady, fun t j v hl => ?_, hlocks, h.receiptLocks,
    fun j hj => hpub j (h.queued j hj), fun t ht => hpub _ (h.delivered t ht)⟩
  · have hne : r' ≠ r := by
      rintro rfl
      exact hnew (h.requests r' hr')
    exact (update_of_ne hne _ _).trans (h.requests r' hr')
  · by_cases hne : r' = r
    · subst hne
      simpa [setRequest] using hanswered hr'
    · have hold := h.answered r' (by rwa [← hrows r' hne])
      simpa [World.setRequest, hne] using hold
  · refine ⟨(h.drafts t j v hl).1, ?_⟩
    by_cases hne : j = r
    · subst hne
      exact hrow (h.drafts t j v hl).2
    · exact (hrows j hne).symm ▸ (h.drafts t j v hl).2

theorem JobInv.setRequest_of
    (hstage : (w.requests r).stage = .accepted ∨ (w.requests r).stage = .refused → R.stage = (w.requests r).stage) :
    JobInv (w.setRequest r R) := by
  refine h.setRequest hnew hpublished (rfl : w.jobs.lock = _) (fun _ _ => rfl) id fun hrow => ?_
  have hans := h.answered r hrow
  rwa [hstage hans]

end

theorem JobInv.advanceRequest (hs : w.advanceRequest r = some w') : JobInv w' := by
  obtain ⟨jobs, cancelled, R, rfl, hans, hpub, hjobs⟩ := advanceRequest_eq hs
  have hnew : w.requests r ≠ ⟨.idle, .none, false⟩ := fun heq => by simp [World.answered, heq] at hans
  have hnone : w.jobs.rows r = none := by
    by_contra hrow
    rcases h.answered r hrow with hstage | hstage <;> simp [World.answered, hstage] at hans
  rcases hjobs with rfl | ⟨status, rfl, hstage⟩
  · exact h.setRequest hnew (hpub ▸ id) rfl (fun _ _ => rfl) id fun hrow => absurd hnone hrow
  · refine h.setRequest hnew (hpub ▸ id) rfl (fun j hj => update_of_ne hj _ _) (fun _ => by simp) fun _ => ?_
    rcases hstage with ⟨-, -, hR⟩ | ⟨-, -, hR⟩
    · exact .inl hR
    · exact .inr hR

end

theorem JobInv.initial (h : w.initial) : JobInv w := by
  obtain ⟨-, hjobs, hreceipts, -, -, -, hqueue, hrequests, htasks, -⟩ := h
  refine ⟨by simp [htasks], by simp [hrequests], by simp [hjobs], fun t => ?_, by simp [htasks, Task.idle], ?_, ?_,
    by simp [hqueue], by simp [htasks, Task.idle]⟩
  · rw [htasks]
    exact .idle
  · simp [RowStore.Tracks, hjobs, htasks, Task.idle]
  · simp [RowStore.Tracks, hreceipts, htasks, Task.idle]

theorem JobInv.deliver {j : Nat} (h : JobInv w) (hj : j ∈ w.queue) :
    JobInv { w.setTask w.nextTask (.start j) with queue := w.queue.erase j, nextTask := w.nextTask + 1 } := by
  have hidle := h.tasks w.nextTask (Nat.le_refl _)
  refine ⟨fun t ht => ?_, h.requests, h.answered, fun t => ?_, fun t j' v hl => ?_, ?_, ?_,
    fun j' hj' => h.queued j' (mem_of_mem_erase hj'), fun t ht => ?_⟩
  · have hne : t ≠ w.nextTask := Nat.ne_of_gt ht
    exact (update_of_ne hne _ _).trans (h.tasks t (Nat.le_of_succ_le ht))
  · by_cases ht : t = w.nextTask
    · subst ht
      simpa [World.setTask] using Steady.start j
    · simpa [World.setTask, ht] using h.steady t
  · by_cases ht : t = w.nextTask
    · subst ht
      simp [World.setTask, Task.start, Task.idle] at hl
    · exact h.drafts t j' v (by simpa [World.setTask, ht] using hl)
  · show w.jobs.Tracks fun t => ((w.setTask w.nextTask (.start j)).tasks t).jobs
    rw [jobs_setTask, show (Task.start j).jobs = (w.tasks w.nextTask).jobs by rw [hidle]; rfl, update_eq_self]
    exact h.jobLocks
  · show w.receipts.Tracks fun t => ((w.setTask w.nextTask (.start j)).tasks t).receipts
    rw [receipts_setTask, show (Task.start j).receipts = (w.tasks w.nextTask).receipts by rw [hidle]; rfl,
      update_eq_self]
    exact h.receiptLocks
  · by_cases heq : t = w.nextTask
    · subst heq
      simpa [World.setTask, Task.start] using h.queued j hj
    · simpa [World.setTask, heq] using h.delivered t (by simpa [World.setTask, heq] using ht)

theorem JobInv.request (h : JobInv w) :
    JobInv { w.setRequest w.nextRequest ⟨.get, .none, false⟩ with nextRequest := w.nextRequest + 1 } := by
  have hidle := h.requests w.nextRequest (Nat.le_refl _)
  have hpub : ∀ j, (w.requests j).published = true →
      (update w.requests w.nextRequest ⟨.get, .none, false⟩ j).published = true := by
    intro j hj
    have hne : j ≠ w.nextRequest := by
      rintro rfl
      simp [hidle] at hj
    simpa [hne] using hj
  refine ⟨h.tasks, fun r hr => ?_, fun r hr => ?_, h.steady, h.drafts, h.jobLocks, h.receiptLocks,
    fun j hj => hpub j (h.queued j hj), fun t ht => hpub _ (h.delivered t ht)⟩
  · have hne : r ≠ w.nextRequest := Nat.ne_of_gt hr
    exact (update_of_ne hne _ _).trans (h.requests r (Nat.le_of_succ_le hr))
  · have hans := h.answered r hr
    have hne : r ≠ w.nextRequest := by
      rintro rfl
      simp [hidle] at hans
    simpa [World.setRequest, hne] using hans

theorem JobInv.same (h : JobInv w) (hjobs : w'.jobs = w.jobs) (hreceipts : w'.receipts = w.receipts)
    (htasks : w'.tasks = w.tasks) (hnext : w'.nextTask = w.nextTask) (hrequests : w'.requests = w.requests)
    (hnext' : w'.nextRequest = w.nextRequest) (hqueue : w'.queue = w.queue) : JobInv w' := by
  refine ⟨?_, ?_, ?_, ?_, ?_, ?_, ?_, ?_, ?_⟩
  · simpa [htasks, hnext] using h.tasks
  · simpa [hrequests, hnext'] using h.requests
  · simpa [hjobs, hrequests] using h.answered
  · simpa [htasks] using h.steady
  · simpa [htasks, hjobs] using h.drafts
  · simpa [htasks, hjobs] using h.jobLocks
  · simpa [htasks, hreceipts] using h.receiptLocks
  · simpa [hqueue, hrequests] using h.queued
  · simpa [htasks, hrequests] using h.delivered

theorem JobInv.step (h : JobInv w) {a : Action} (hs : w.step S a = some w') : JobInv w' := by
  cases a with
  | request =>
    cases hs
    exact h.request
  | advanceRequest r => exact h.advanceRequest hs
  | timeout r =>
    obtain ⟨hstage, rfl⟩ := of_ite_some hs
    exact h.setRequest_of (fun heq => by simp [heq] at hstage) id (by simp [hstage])
  | failRequest r =>
    obtain ⟨hans, rfl⟩ := of_ite_none hs
    simp only [World.answered, Bool.or_eq_true, decide_eq_true_eq, not_or] at hans
    refine h.setRequest_of (fun heq => hans.1.1 (by rw [heq])) id ?_
    rintro (hstage | hstage)
    · exact absurd hstage hans.1.2
    · exact absurd hstage hans.2
  | publish r =>
    obtain ⟨⟨hthread, -⟩, rfl⟩ := of_ite_some hs
    have hset : JobInv (w.setRequest r { w.requests r with published := true }) :=
      h.setRequest_of (fun heq => by simp [heq] at hthread) (fun _ => rfl) fun _ => rfl
    refine { hset with queued := fun j hj => ?_ }
    rcases mem_cons.mp hj with rfl | hj
    · simp [World.setRequest]
    · exact hset.queued j hj
  | returnThread r =>
    obtain ⟨⟨hthread, -⟩, rfl⟩ := of_ite_some hs
    exact h.setRequest_of (fun heq => by simp [heq] at hthread) id fun _ => rfl
  | raiseThread r =>
    obtain ⟨hthread, rfl⟩ := of_ite_some hs
    exact h.setRequest_of (fun heq => by simp [heq] at hthread) id fun _ => rfl
  | deliver j =>
    obtain ⟨hj, rfl⟩ := of_ite_some hs
    exact h.deliver hj
  | redeliver j =>
    obtain ⟨hpub, rfl⟩ := of_ite_some hs
    exact { h with queued := forall_mem_cons.mpr ⟨hpub, h.queued⟩ }
  | advance t =>
    obtain ⟨st, hst, hs⟩ := bind_eq_some_iff.mp hs
    exact h.exec hst hs
  | error t =>
    obtain ⟨hactive, rfl⟩ := of_ite_some hs
    simp only [active, Bool.and_eq_true, decide_eq_true_eq] at hactive
    exact h.raise hactive.1 none
  | crash t =>
    obtain ⟨hactive, rfl⟩ := of_ite_some hs
    simp only [active, Bool.and_eq_true, decide_eq_true_eq] at hactive
    have hroll : JobInv (w.rollback t (w.tasks t).phase .done) :=
      h.rollback hactive.1 rfl rfl (.crashed _ _ fun hfirst => by simp [hfirst]) rfl rfl rfl
    exact { hroll with queued := forall_mem_cons.mpr ⟨h.delivered t hactive.1, h.queued⟩ }
  | _ =>
    have hf := step_frame hs
    have htasks := hf.tasks (by simp [Action.party])
    have hrequests := hf.requests (by simp [Action.party])
    exact h.same (hf.jobs (by simp [Action.party]) (by simp)) (hf.receipts (by simp [Action.party])) htasks.1 htasks.2
      hrequests.1 hrequests.2 (hf.queue (by simp [Action.party]))

theorem jobInv_of_reachable (h : (machine S).Reachable w) : JobInv w :=
  h.invariant (fun _ h₀ => .initial h₀) fun _ _ _ hi hs => hi.step hs

end IbexHarness.OrgDeletion
