import IbexHarness.OrgDeletion.Lemmas.Waits

/-! The rows that a task at work needs are its own or free, since a job has one owner. -/

namespace IbexHarness.OrgDeletion

open Lib Option World

variable {S : Settings} {w w' : World} {T : Task} {u : Nat}

/-! ## What a task can wait for -/

def TaskStage.locks : TaskStage → Bool
  | .lock | .auditBlocked | .requireLock _ | .certificate => true
  | _ => false

variable {a : Action} {i : Nat}

theorem statement_ne_none {W : Tables} (hidle : T.stage ≠ .idle) (hdone : T.stage ≠ .done) :
    T.statement S W ≠ none := by
  cases hcur : T.stage with
  | idle => exact absurd hcur hidle
  | done => exact absurd hcur hdone
  | claim =>
    simp only [Task.statement, hcur]
    split <;> simp
  | receipt s => cases s <;> simp [Task.statement, hcur]
  | _ => simp [Task.statement, hcur]

theorem locks_of_statement {W : Tables} {st : Statement} {next : TaskStage} (hst : T.statement S W = some st)
    (hl : st = .advisoryLock next ∨ st = .certify next) : T.stage.locks = true := by
  have hissues := issues_of_statement hst
  generalize T.stage = stage at hissues
  cases hissues with
  | lock | auditBlocked | requireLock | certificate => rfl
  | _ => simp at hl

theorem Owned.eq_of_busy {v : Nat} (h : Owned (w.tasks u).job w) (hu : (w.tasks u).stage.resting = false)
    (hv : (w.tasks v).stage.resting = false) (hjob : (w.tasks v).job = (w.tasks u).job) : v = u :=
  h.unique v u hjob rfl (h.active v hjob hv) (h.active u rfl hu)

theorem JobInv.busy_of_drafted {v j : Nat} {d : Option JobStatus} (h : JobInv w)
    (hd : (w.tasks v).jobs.lookup j = some d) :
    (w.tasks v).stage.resting = false := by
  by_contra hrest
  rw [((h.steady v).resting (by simpa using hrest)).1] at hd
  cases hd

theorem acquire_job_ne_none (hinv : Inv S w) (hjobs : JobInv w) (howned : Owned (w.tasks u).job w)
    (hu : (w.tasks u).stage.resting = false) : w.jobs.acquire u (w.tasks u).job ≠ none := by
  intro hnone
  obtain ⟨v, hne, hv⟩ := hjobs.jobLocks.held_of_acquire_eq_none hnone
  obtain ⟨d, hd⟩ := isSome_iff_exists.mp hv
  exact hne (howned.eq_of_busy hu (hjobs.busy_of_drafted hd) ((hinv.tasks v).jobs _ _ hd).symm)

section

variable (hinv : Inv S w) (hjobs : JobInv w) (hlock : LockInv w) (howned : Owned (w.tasks u).job w)
  (hu : (w.tasks u).stage.resting = false)
include hinv hjobs hlock howned hu

theorem acquire_receipt_ne_none (s : Store) : w.receipts.acquire u ⟨(w.tasks u).job, s⟩ ≠ none := by
  intro hnone
  obtain ⟨v, hne, hv⟩ := hjobs.receiptLocks.held_of_acquire_eq_none hnone
  obtain ⟨d, hd⟩ := isSome_iff_exists.mp hv
  have hbusy : (w.tasks v).stage.resting = false := by
    by_contra hrest
    rw [hlock.drafts v (by simpa using hrest)] at hd
    cases hd
  exact hne (howned.eq_of_busy hu hbusy ((hinv.tasks v).receipts _ _ hd).1.symm)

theorem advance_ne_none
    (hl : (w.tasks u).stage.locks = true → w.lock.exclusive = some (.task u)) : w.step S (.advance u) ≠ none := by
  have hsome : (w.tasks u).statement S w.toTables ≠ none :=
    statement_ne_none (fun h => by simp [h, TaskStage.resting] at hu) (fun h => by simp [h, TaskStage.resting] at hu)
  obtain ⟨st, hst⟩ := ne_none_iff_exists'.mp hsome
  have hacquire : ∀ next, st = .advisoryLock next ∨ st = .certify next → w.lock.acquire (.task u) ≠ none := by
    intro next hnext
    rw [SharedLock.acquire_of_exclusive (hl (locks_of_statement hst hnext))]
    simp
  simp only [step, hst, bind_some]
  cases st with
  | read | noHold | runStage | raise | commit => simp [exec]
  | advisoryLock next => exact fun h => hacquire next (.inl rfl) (map_eq_none_iff.mp h)
  | certify next => exact fun h => hacquire next (.inr rfl) (map_eq_none_iff.mp h)
  | claim next =>
    obtain ⟨hstage, -⟩ := issued_of_statement hst
    simp [hstage, TaskStage.resting] at hu
  | updateJob status next =>
    exact fun h => acquire_job_ne_none hinv hjobs howned hu (map_eq_none_iff.mp h)
  | upsertReceipt s r next =>
    exact fun h => acquire_receipt_ne_none hinv hjobs hlock howned hu s (map_eq_none_iff.mp h)

end

/-! ## Steps of one party -/

theorem task_step (hjobs : JobInv w) (hs : w.step S a = some w') (hu : (w.tasks u).stage.resting = false) :
    w'.tasks u = w.tasks u ∨ a = .advance u ∨ a = .error u ∨ a = .crash u := by
  rcases tasks_step hs u with hsame | ha | ⟨rfl, -⟩
  · exact .inl hsame
  · exact .inr ha
  · rw [hjobs.tasks _ (Nat.le_refl _)] at hu
    cases hu

theorem tasks_advance (hs : w.step S (.advance u) = some w') :
    ∃ st, (w.tasks u).statement S w.toTables = some st ∧ w'.tasks u = (w.tasks u).after w.memories st := by
  obtain ⟨st, hst, hs⟩ := bind_eq_some_iff.mp hs
  obtain ⟨W, rfl⟩ := exec_eq hs
  exact ⟨st, hst, Function.update_self _ _ _⟩

theorem weight_advance (hs : w.step S (.advance u) = some w') :
    (w'.tasks u).stage.weight < (w.tasks u).stage.weight := by
  obtain ⟨st, hst, htask⟩ := tasks_advance hs
  rw [htask]
  exact weight_after hst w.memories

/-- What a task has before it, with what an error would add. -/
def Task.rank (T : Task) : Nat := T.stage.weight + if T.phase = .failing then 0 else 4

theorem raised_cases (T : Task) (unreachable : Option Store) : (T.raised unreachable).stage = .done ∨
    T.phase ≠ .failing ∧ (T.raised unreachable).stage.resting = false := by
  by_cases hp : T.phase = .failing
  · exact .inl (if_pos hp)
  · cases unreachable <;> exact .inr ⟨hp, by simp [Task.raised, Task.ended, hp, TaskStage.resting]⟩

theorem Steady.after_cases {W : Tables} {st : Statement} (h : Steady T) (hst : T.statement S W = some st)
    (hbusy : T.stage.resting = false) (memories : List Nat) : (T.after memories st).stage = .done ∨
      (T.after memories st).stage.resting = false ∧ (T.phase = .failing → (T.after memories st).phase = .failing) := by
  cases st with
  | raise unreachable => exact (raised_cases T unreachable).imp_right fun hr => ⟨hr.2, fun _ => rfl⟩
  | commit next =>
    rcases issued_of_statement hst with ⟨hs, rfl⟩ | ⟨-, rfl⟩
    · have hfits := h.fits
      exact .inr ⟨rfl, fun hp => by simp [hs, hp, TaskStage.fits] at hfits⟩
    · exact .inl rfl
  | _ =>
    rcases statement_next h.fits hst rfl with ⟨hc, -⟩ | ⟨-, hn, -⟩
    · simp [hc, TaskStage.resting] at hbusy
    · exact .inr ⟨hn, id⟩

theorem exclusive_error (hs : w.step S a = some w') (ha : a = .error u ∨ a = .crash u) :
    w'.lock.exclusive ≠ some (.task u) := by
  intro hex
  rcases ha with rfl | rfl
  · obtain ⟨-, rfl⟩ := of_ite_some hs
    rw [raise_eq] at hex
    exact (SharedLock.exclusive_of_release hex).2 rfl
  · obtain ⟨-, rfl⟩ := of_ite_some hs
    exact (SharedLock.exclusive_of_release hex).2 rfl

def HoldStage.weight : HoldStage → Nat
  | .insert => 2
  | .commit => 1
  | _ => 0

theorem advanceHold_ne_none (h : (w.holds i).holding = true) : w.advanceHold i ≠ none := by
  unfold advanceHold
  cases hcur : w.holds i with
  | insert | commit => exact nofun
  | idle | lock | done => simp [hcur, HoldStage.holding] at h

theorem weight_hold (hfresh : Fresh w) (hs : w.step S a = some w')
    (h : (w.holds i).holding = true) (hex : w'.lock.exclusive = some (.hold i)) :
    (w'.holds i).weight < (w.holds i).weight ∨ (w'.holds i).weight = (w.holds i).weight ∧ a ≠ .advanceHold i := by
  have hend : ∀ hold, ({ w with hold }.endHold i).lock.exclusive ≠ some (.hold i) :=
    fun hold hex => (SharedLock.exclusive_of_release hex).2 rfl
  by_cases ha : a = .advanceHold i
  · subst ha
    simp only [step, advanceHold] at hs
    cases hcur : w.holds i with
    | idle | lock | done => simp [hcur, HoldStage.holding] at h
    | insert =>
      simp only [hcur, some.injEq] at hs
      subst hs
      split_ifs at hex ⊢
      · exact absurd hex (hend w.hold)
      · exact .inl (by simp [setHoldStage, HoldStage.weight])
    | commit =>
      simp only [hcur, some.injEq] at hs
      subst hs
      exact absurd hex (hend true)
  · refine .inr ⟨?_, ha⟩
    rcases (holds_writes_step hs).1 with ⟨-, hsame⟩ | rfl
    · rcases hsame i with heq | hadv | rfl
      · rw [heq]
      · exact absurd hadv ha
      · obtain ⟨-, rfl⟩ := of_ite_none hs
        exact absurd hex (hend w.hold)
    · cases hs
      have hne : i ≠ w.nextHold := by
        rintro rfl
        simp [hfresh.holds _ (Nat.le_refl _), HoldStage.holding] at h
      exact congrArg HoldStage.weight (Function.update_of_ne hne _ _)

def WriteStage.weight : WriteStage → Nat
  | .check => 3
  | .insert => 2
  | .commit => 1
  | _ => 0

theorem advanceWrite_ne_none (h : (w.writes i).holding = true) : w.advanceWrite i ≠ none := by
  unfold advanceWrite
  cases hcur : w.writes i with
  | check | insert | commit => exact nofun
  | idle | lock | committed | failed => simp [hcur, WriteStage.holding] at h

theorem weight_write (hfresh : Fresh w) (hs : w.step S a = some w')
    (h : (w.writes i).holding = true) (hsh : .write i ∈ w'.lock.shared) :
    (w'.writes i).weight < (w.writes i).weight ∨ (w'.writes i).weight = (w.writes i).weight ∧ a ≠ .advanceWrite i := by
  have hend : ∀ memories stage, Owner.write i ∉ ({ w with memories }.endWrite i stage).lock.shared :=
    fun memories stage hsh => (SharedLock.shared_of_release hsh).2 rfl
  by_cases ha : a = .advanceWrite i
  · subst ha
    simp only [step, advanceWrite] at hs
    cases hcur : w.writes i with
    | idle | lock | committed | failed => simp [hcur, WriteStage.holding] at h
    | check =>
      simp only [hcur, some.injEq] at hs
      subst hs
      split_ifs at hsh ⊢
      · exact absurd hsh (hend w.memories .failed)
      · exact .inl (by simp [setWriteStage, WriteStage.weight])
    | insert =>
      simp only [hcur, some.injEq] at hs
      subst hs
      exact .inl (by simp [setWriteStage, WriteStage.weight])
    | commit =>
      simp only [hcur, some.injEq] at hs
      subst hs
      exact absurd hsh (hend (i :: w.memories) .committed)
  · refine .inr ⟨?_, ha⟩
    rcases (holds_writes_step hs).2 with ⟨-, hsame⟩ | rfl
    · rcases hsame i with heq | hadv | rfl
      · rw [heq]
      · exact absurd hadv ha
      · obtain ⟨-, rfl⟩ := of_ite_some hs
        exact absurd hsh (hend w.memories .failed)
    · cases hs
      have hne : i ≠ w.nextWrite := by
        rintro rfl
        simp [hfresh.writes _ (Nat.le_refl _), WriteStage.holding] at h
      exact congrArg WriteStage.weight (Function.update_of_ne hne _ _)

/-- The parties go on when they can, PostgreSQL grants the advisory lock in turn, and no database error hits the first
transaction of a task. -/
structure Scheduled (t : (machine S).Trace) : Prop where
  tasks : ∀ u, t.Fair (· = .advance u)
  holds : ∀ i, t.Fair (· = .advanceHold i)
  writes : ∀ i, t.Fair (· = .advanceWrite i)
  /-- a task waits forever only for an owner who keeps the lock -/
  queue : ∀ u n, (∀ m, n ≤ m → ((t.state m).tasks u).stage.locks = true) → ∃ o n', ∀ m, n' ≤ m → (t.state m).lock.Held o
  errors : ∀ n u, t.act n = some (.error u) → ((t.state n).tasks u).phase ≠ .first

variable {t : (machine S).Trace}

section

variable (t : (machine S).Trace)

theorem step_state {n : Nat} (hact : t.act n = some a) :
    (t.state n).step S a = some (t.state (n + 1)) := t.step n a hact

theorem inv_state (n : Nat) : Inv S (t.state n) := inv_of_reachable (t.reachable n)

theorem jobInv_state (n : Nat) : JobInv (t.state n) := jobInv_of_reachable (t.reachable n)

theorem fresh_state (n : Nat) : Fresh (t.state n) := (lockInv_of_reachable (t.reachable n)).1

theorem lockInv_state (n : Nat) : LockInv (t.state n) := (lockInv_of_reachable (t.reachable n)).2

end

section

variable (h : Scheduled t)
include h

theorem Scheduled.owned (j n : Nat) : Owned j (t.state n) := by
  refine t.always_from (.initial t.init) (fun m a _ howned hact => ?_) (Nat.zero_le n)
  refine howned.step (inv_state t m) (jobInv_state t m) ?_ (step_state t hact)
  cases a with
  | error u => simp [noEarlyError, h.errors m u hact]
  | _ => rfl

theorem Scheduled.task_releases (u n : Nat) : ∃ m, n ≤ m ∧ ¬(t.state m).lock.exclusive = some (.task u) := by
  refine Machine.Trace.leaves (P := fun w => w.lock.exclusive = some (.task u)) (fun w => (w.tasks u).stage.weight)
    (h.tasks u) (fun m hex => ?_) (fun m a hex hex' hact => ?_) n
  · exact advance_ne_none (inv_state t m) (jobInv_state t m) (lockInv_state t m) (h.owned _ m)
      (((lockInv_state t m).holding (.task u)).1 hex) fun _ => hex
  · have hs := step_state t hact
    rcases task_step (jobInv_state t m) hs (((lockInv_state t m).holding (.task u)).1 hex) with hsame | rfl | hend
    · by_cases ha : a = .advance u
      · exact .inl (weight_advance (ha ▸ hs))
      · exact .inr ⟨by rw [hsame], ha⟩
    · exact .inl (weight_advance hs)
    · exact absurd hex' (exclusive_error hs hend)

theorem Scheduled.hold_releases (i n : Nat) : ∃ m, n ≤ m ∧ ¬(t.state m).lock.exclusive = some (.hold i) := by
  refine Machine.Trace.leaves (P := fun w => w.lock.exclusive = some (.hold i)) (fun w => (w.holds i).weight)
    (h.holds i)
    (fun m hex => ?_) (fun m a hex hex' hact => ?_) n
  · exact advanceHold_ne_none (((lockInv_state t m).holding (.hold i)).1 hex)
  · exact weight_hold (fresh_state t m) (step_state t hact) (((lockInv_state t m).holding (.hold i)).1 hex) hex'

theorem Scheduled.write_releases (i n : Nat) : ∃ m, n ≤ m ∧ ¬.write i ∈ (t.state m).lock.shared := by
  refine Machine.Trace.leaves (P := fun w => .write i ∈ w.lock.shared) (fun w => (w.writes i).weight) (h.writes i)
    (fun m hsh => ?_) (fun m a hsh hsh' hact => ?_) n
  · exact advanceWrite_ne_none (((lockInv_state t m).holding (.write i)).1 hsh)
  · exact weight_write (fresh_state t m) (step_state t hact) (((lockInv_state t m).holding (.write i)).1 hsh) hsh'

theorem Scheduled.not_held (o : Owner) (n : Nat) : ∃ m, n ≤ m ∧ ¬(t.state m).lock.Held o := by
  cases o with
  | task u =>
    obtain ⟨m, hm, hex⟩ := h.task_releases u n
    exact ⟨m, hm, not_or.mpr ⟨hex, ((lockInv_state t m).holding (.task u)).2⟩⟩
  | hold i =>
    obtain ⟨m, hm, hex⟩ := h.hold_releases i n
    exact ⟨m, hm, not_or.mpr ⟨hex, ((lockInv_state t m).holding (.hold i)).2⟩⟩
  | write i =>
    obtain ⟨m, hm, hsh⟩ := h.write_releases i n
    exact ⟨m, hm, not_or.mpr ⟨((lockInv_state t m).holding (.write i)).2, hsh⟩⟩

theorem Scheduled.task_moves (u : Nat) :
    t.FairWhile (fun w => (w.tasks u).stage.resting = false) fun a => a = .advance u ∨ a = .error u ∨ a = .crash u := by
  intro n hbusy
  by_contra hnever
  have hsame : ∀ m, n ≤ m → (t.state m).tasks u = (t.state n).tasks u := by
    intro m hm
    refine t.always_from (P := fun w => w.tasks u = (t.state n).tasks u) rfl (fun k a hk hsame hact => ?_) hm
    refine ((task_step (jobInv_state t k) (step_state t hact) (hbusy k hk)).resolve_right fun ha => ?_).trans hsame
    exact hnever ⟨k, hk, a, ha, hact⟩
  by_cases hl : ((t.state n).tasks u).stage.locks = true
  · obtain ⟨o, n', hheld⟩ := h.queue u n fun m hm => hsame m hm ▸ hl
    obtain ⟨m, hm, hnot⟩ := h.not_held o n'
    exact hnot (hheld m hm)
  · have henabled : ∀ m, n ≤ m → (t.state m).step S (.advance u) ≠ none := fun m hm =>
      advance_ne_none (inv_state t m) (jobInv_state t m) (lockInv_state t m) (h.owned _ m) (hbusy m hm)
        fun hl' => absurd (hsame m hm ▸ hl') hl
    obtain ⟨m, hm, a, ha, hact⟩ := h.tasks u n fun m hm => ⟨_, rfl, henabled m hm⟩
    exact hnever ⟨m, hm, a, .inl ha, hact⟩

theorem Scheduled.task_eventually {n : Nat} {P : Task → Prop} {Q : World → Prop} (rank : Task → Nat)
    (hbusy : ∀ T, P T → T.stage.resting = false) (hstep : ∀ m a, n ≤ m → P ((t.state m).tasks u) → t.act m = some a →
      a = .advance u ∨ a = .error u ∨ a = .crash u → Q (t.state (m + 1)) ∨
        P ((t.state (m + 1)).tasks u) ∧ rank ((t.state (m + 1)).tasks u) < rank ((t.state m).tasks u))
    (hp : P ((t.state n).tasks u)) : ∃ m, n ≤ m ∧ Q (t.state m) := by
  refine Machine.Trace.eventually_from (P := fun w => P (w.tasks u)) (H := fun _ : Unit => fun _ => True)
    (fun w => rank (w.tasks u)) (fun _ => h.task_moves u) (fun _ _ _ => ⟨(), trivial⟩) (fun _ _ _ hp _ => hbusy _ hp)
    (fun m a _ hm hp _ hact => ?_) hp
  by_cases ha : a = .advance u ∨ a = .error u ∨ a = .crash u
  · exact (hstep m a hm hp hact ha).imp_right fun hp' => ⟨hp'.1, .inl hp'.2⟩
  · have hsame := (task_step (jobInv_state t m) (step_state t hact) (hbusy _ hp)).resolve_right ha
    exact .inr ⟨by rwa [hsame], .inr ⟨by rw [hsame], trivial, ha⟩⟩

end

end IbexHarness.OrgDeletion
