import IbexHarness.OrgDeletion.World

/-! Jobs are created by requests. -/

namespace IbexHarness.OrgDeletion

open Lib Function Option World

variable {S : Settings} {w w' : World} {t r i : Nat} {a : Action}

structure SameCommitted (w w' : World) : Prop where
  purged : w'.purged = w.purged
  certificates : w'.certificates = w.certificates
  rows : w'.jobs.rows = w.jobs.rows
  hold : w'.hold = true → w.hold = true ∨ ∃ i, w.holds i = .commit

theorem SameCommitted.raise (unreachable : Option Store) : SameCommitted w (w.raise t unreachable) := by
  unfold World.raise
  split_ifs <;> exact ⟨rfl, rfl, rfl, .inl⟩

theorem exec_committed {st : Statement} (hs : w.exec t st = some w') :
    (∃ next, st = .commit next ∧ w' = w.commit t next) ∨ SameCommitted w w' := by
  cases st with
  | commit next => exact .inl ⟨next, rfl, (some.inj hs).symm⟩
  | read | noHold | runStage =>
    cases hs
    exact .inr ⟨rfl, rfl, rfl, .inl⟩
  | advisoryLock | certify | upsertReceipt =>
    obtain ⟨_, -, rfl⟩ := map_eq_some_iff.mp hs
    exact .inr ⟨rfl, rfl, rfl, .inl⟩
  | claim | updateJob =>
    obtain ⟨jobs, ha, rfl⟩ := map_eq_some_iff.mp hs
    exact .inr ⟨rfl, rfl, RowStore.rows_of_acquire ha, .inl⟩
  | raise unreachable =>
    cases hs
    exact .inr (.raise unreachable)

/-- A request commits its job: pending if it is accepted, failed if it is refused. -/
structure Creates (w w' : World) (r : Nat) (status : JobStatus) : Prop where
  purged : w'.purged = w.purged
  certificates : w'.certificates = w.certificates
  rows : w'.jobs.rows = update w.jobs.rows r (some status)
  hold : w'.hold = w.hold
  stage : status = .pending ∧ (w.requests r).stage = .cancel ∧ (w'.requests r).stage = .accepted ∨
    status = .failed ∧ (w.requests r).stage = .markFailed ∧ (w'.requests r).stage = .refused

def Task.raised (T : Task) (unreachable : Option Store) : Task :=
  T.ended .failing (if T.phase = .failing then .done else unreachable.elim (.finish .failed) .failReceipt)
    (T.claimed && T.phase ≠ Phase.first)

def Task.after (T : Task) (memories : List Nat) : Statement → Task
  | .read next | .advisoryLock next => { T with stage := next }
  | .noHold next => { T with stage := next, checked := true }
  | .claim next => { T with stage := next, jobs := (T.job, some .running) :: T.jobs, claimed := true }
  | .updateJob status next => { T with stage := next, jobs := (T.job, some status) :: T.jobs }
  | .upsertReceipt s r next => { T with stage := next, receipts := (⟨T.job, s⟩, some r) :: T.receipts }
  | .runStage s next => { T with stage := next, purge := if s = Store.postgres then some memories else T.purge }
  | .certify next => { T with stage := next, certified := true }
  | .raise unreachable => T.raised unreachable
  | .commit next =>
    T.ended (if next = TaskStage.publish then .second else T.phase) next (T.claimed && next = TaskStage.publish)

@[simp] theorem Task.job_after (T : Task) (memories : List Nat) (st : Statement) :
    (T.after memories st).job = T.job := by
  cases st <;> rfl

theorem raise_eq (w : World) (t : Nat) (unreachable : Option Store) : w.raise t unreachable = { w with
      jobs := w.jobs.rollback t
      receipts := w.receipts.rollback t
      lock := w.lock.release (.task t) }.setTask t ((w.tasks t).raised unreachable) := by
  unfold raise Task.raised
  split_ifs <;> rfl

theorem exec_eq {st : Statement} (hs : w.exec t st = some w') :
    ∃ W, w' = { w with toTables := W }.setTask t ((w.tasks t).after w.memories st) := by
  cases st with
  | read | noHold | runStage | commit =>
    cases hs
    exact ⟨_, rfl⟩
  | advisoryLock | certify | upsertReceipt | claim | updateJob =>
    obtain ⟨_, -, rfl⟩ := map_eq_some_iff.mp hs
    exact ⟨_, rfl⟩
  | raise unreachable =>
    cases hs
    exact ⟨_, raise_eq w t unreachable⟩

theorem advanceHold_eq (hs : w.advanceHold i = some w') :
    ∃ hold lock stage, w' = { w with hold, lock }.setHoldStage i stage ∧
      (hold = true → w.hold = true ∨ w.holds i = .commit) := by
  unfold advanceHold at hs
  split at hs
  case h_1 =>
    obtain ⟨_, -, rfl⟩ := map_eq_some_iff.mp hs
    exact ⟨_, _, _, rfl, .inl⟩
  case h_2 =>
    cases hs
    split_ifs <;> exact ⟨_, _, _, rfl, .inl⟩
  case h_3 hstage =>
    cases hs
    exact ⟨_, _, _, rfl, fun _ => .inr hstage⟩
  all_goals cases hs

/-- A request that is answered by this step commits its job. -/
theorem advanceRequest_eq (hs : w.advanceRequest r = some w') :
    ∃ jobs cancelled R, w' = { w with jobs, cancelled }.setRequest r R ∧ w.answered r = false ∧
      R.published = (w.requests r).published ∧ (jobs = w.jobs ∨ ∃ status,
        jobs = { w.jobs with rows := update w.jobs.rows r (some status) } ∧
        (status = .pending ∧ (w.requests r).stage = .cancel ∧ R.stage = .accepted ∨
          status = .failed ∧ (w.requests r).stage = .markFailed ∧ R.stage = .refused)) := by
  unfold advanceRequest at hs
  split at hs
  case h_1 hstage | h_2 hstage | h_3 hstage =>
    cases hs
    split_ifs <;> exact ⟨_, _, _, rfl, by simp [answered, hstage], rfl, .inl rfl⟩
  case h_4 hstage =>
    cases hs
    exact ⟨_, _, _, rfl, by simp [answered, hstage], rfl, .inl rfl⟩
  case h_5 hstage =>
    split at hs <;> cases hs <;> exact ⟨_, _, _, rfl, by simp [answered, hstage], rfl, .inl rfl⟩
  case h_6 hstage =>
    cases hs
    exact ⟨_, _, _, rfl, by simp [answered, hstage], rfl, .inr ⟨_, rfl, .inr ⟨rfl, hstage, rfl⟩⟩⟩
  case h_7 hstage =>
    cases hs
    exact ⟨_, _, _, rfl, by simp [answered, hstage], rfl, .inr ⟨_, rfl, .inl ⟨rfl, hstage, rfl⟩⟩⟩
  all_goals cases hs

theorem advanceRequest_committed (hs : w.advanceRequest r = some w') :
    (∃ status, Creates w w' r status) ∨ SameCommitted w w' := by
  obtain ⟨jobs, cancelled, R, rfl, -, -, rfl | ⟨status, rfl, hstage⟩⟩ := advanceRequest_eq hs
  · exact .inr ⟨rfl, rfl, rfl, .inl⟩
  · exact .inl ⟨status, rfl, rfl, rfl, rfl, by simpa [setRequest] using hstage⟩

theorem advanceWrite_eq (hs : w.advanceWrite i = some w') :
    ∃ memories lock stage, w' = { w with memories, lock }.setWriteStage i stage ∧
      (stage = .committed → w.writes i = .commit) := by
  unfold advanceWrite at hs
  split at hs
  case h_1 =>
    obtain ⟨_, -, rfl⟩ := map_eq_some_iff.mp hs
    exact ⟨_, _, _, rfl, nofun⟩
  case h_2 =>
    cases hs
    split_ifs <;> exact ⟨_, _, _, rfl, nofun⟩
  case h_3 =>
    cases hs
    exact ⟨_, _, _, rfl, nofun⟩
  case h_4 hstage =>
    cases hs
    exact ⟨_, _, _, rfl, fun _ => hstage⟩
  all_goals cases hs

inductive Party where
  | worker
  | api
  | hold
  | write
  | broker

def Action.party : Action → Party
  | .advance _ | .error _ | .crash _ | .deliver _ => .worker
  | .request | .advanceRequest _ | .timeout _ | .failRequest _ | .publish _ | .returnThread _ | .raiseThread _ => .api
  | .setHold | .advanceHold _ | .abortHold _ | .clearHold => .hold
  | .write | .advanceWrite _ | .abortWrite _ => .write
  | .redeliver _ => .broker

structure Frame (a : Action) (w w' : World) : Prop where
  tasks : a.party ≠ .worker → w'.tasks = w.tasks ∧ w'.nextTask = w.nextTask
  receipts : a.party ≠ .worker → w'.receipts = w.receipts
  jobs : a.party ≠ .worker → (∀ r, a ≠ .advanceRequest r) → w'.jobs = w.jobs
  requests : a.party ≠ .api → w'.requests = w.requests ∧ w'.nextRequest = w.nextRequest
  holds : a.party ≠ .hold → w'.holds = w.holds ∧ w'.nextHold = w.nextHold
  writes : a.party ≠ .write → w'.writes = w.writes ∧ w'.nextWrite = w.nextWrite
  lock : a.party = .api ∨ a.party = .broker → w'.lock = w.lock
  queue : a.party = .hold ∨ a.party = .write → w'.queue = w.queue
  messages : w'.queue = w.queue ∨ (∃ j, w'.queue = j :: w.queue) ∨ ∃ j, a = .deliver j ∧ w'.queue = w.queue.erase j

theorem Frame.worker {W : Tables} {tasks : Nat → Task} {nextTask : Nat} {queue : List Nat} (ha : a.party = .worker)
    (hqueue : queue = w.queue ∨ (∃ j, queue = j :: w.queue) ∨ ∃ j, a = .deliver j ∧ queue = w.queue.erase j) :
    Frame a w { w with toTables := W, tasks, nextTask, queue } where
  tasks h := absurd ha h
  receipts h := absurd ha h
  jobs h := absurd ha h
  requests _ := ⟨rfl, rfl⟩
  holds _ := ⟨rfl, rfl⟩
  writes _ := ⟨rfl, rfl⟩
  lock h := by simp [ha] at h
  queue h := by simp [ha] at h
  messages := hqueue

/-- The API and the broker leave the tasks, the holds, the writes and their lock alone. -/
theorem api_eq (ha : a.party = .api ∨ a.party = .broker) (hs : w.step S a = some w') :
    ∃ jobs cancelled requests nextRequest queue, w' = { w with jobs, cancelled, requests, nextRequest, queue } ∧
      ((∀ r, a ≠ .advanceRequest r) → jobs = w.jobs) ∧ (a.party ≠ .api → requests = w.requests ∧
        nextRequest = w.nextRequest) ∧ (queue = w.queue ∨ ∃ j, queue = j :: w.queue) := by
  cases a with
  | advanceRequest r =>
    obtain ⟨jobs, cancelled, R, rfl, -⟩ := advanceRequest_eq hs
    exact ⟨_, _, _, _, _, rfl, fun hne => absurd rfl (hne r), fun hne => absurd rfl hne, .inl rfl⟩
  | request =>
    cases hs
    exact ⟨_, _, _, _, _, rfl, fun _ => rfl, fun hne => absurd rfl hne, .inl rfl⟩
  | failRequest =>
    obtain ⟨-, rfl⟩ := of_ite_none hs
    exact ⟨_, _, _, _, _, rfl, fun _ => rfl, fun hne => absurd rfl hne, .inl rfl⟩
  | timeout | returnThread | raiseThread =>
    obtain ⟨-, rfl⟩ := of_ite_some hs
    exact ⟨_, _, _, _, _, rfl, fun _ => rfl, fun hne => absurd rfl hne, .inl rfl⟩
  | publish =>
    obtain ⟨-, rfl⟩ := of_ite_some hs
    exact ⟨_, _, _, _, _, rfl, fun _ => rfl, fun hne => absurd rfl hne, .inr ⟨_, rfl⟩⟩
  | redeliver =>
    obtain ⟨-, rfl⟩ := of_ite_some hs
    exact ⟨_, _, _, _, _, rfl, fun _ => rfl, fun _ => ⟨rfl, rfl⟩, .inr ⟨_, rfl⟩⟩
  | _ => simp [Action.party] at ha

theorem Frame.api (ha : a.party = .api ∨ a.party = .broker) (hs : w.step S a = some w') : Frame a w w' := by
  obtain ⟨jobs, cancelled, requests, nextRequest, queue, rfl, hjobs, hrequests, hqueue⟩ := api_eq ha hs
  refine ⟨fun _ => ⟨rfl, rfl⟩, fun _ => rfl, fun _ => hjobs, hrequests, fun _ => ⟨rfl, rfl⟩, fun _ => ⟨rfl, rfl⟩,
    fun _ => rfl, fun h => ?_, ?_⟩
  · rcases ha with ha | ha <;> simp [ha] at h
  · rcases hqueue with hsame | hcons
    · exact .inl hsame
    · exact .inr (.inl hcons)

theorem Frame.hold {hold : Bool} {lock : SharedLock Owner} {holds : Nat → HoldStage} {nextHold : Nat}
    (ha : a.party = .hold) : Frame a w { w with hold, lock, holds, nextHold } where
  tasks _ := ⟨rfl, rfl⟩
  receipts _ := rfl
  jobs _ _ := rfl
  requests _ := ⟨rfl, rfl⟩
  holds h := absurd ha h
  writes _ := ⟨rfl, rfl⟩
  lock h := by simp [ha] at h
  queue _ := rfl
  messages := .inl rfl

theorem Frame.write {memories : List Nat} {lock : SharedLock Owner} {writes : Nat → WriteStage} {nextWrite : Nat}
    (ha : a.party = .write) : Frame a w { w with memories, lock, writes, nextWrite } where
  tasks _ := ⟨rfl, rfl⟩
  receipts _ := rfl
  jobs _ _ := rfl
  requests _ := ⟨rfl, rfl⟩
  holds _ := ⟨rfl, rfl⟩
  writes h := absurd ha h
  lock h := by simp [ha] at h
  queue _ := rfl
  messages := .inl rfl

section

variable (hs : w.step S a = some w')
include hs

theorem step_frame : Frame a w w' := by
  cases a with
  | advance t =>
    obtain ⟨st, -, hs⟩ := bind_eq_some_iff.mp hs
    obtain ⟨W, rfl⟩ := exec_eq hs
    exact .worker rfl (.inl rfl)
  | error t =>
    obtain ⟨-, rfl⟩ := of_ite_some hs
    rw [raise_eq]
    exact .worker rfl (.inl rfl)
  | crash t =>
    obtain ⟨-, rfl⟩ := of_ite_some hs
    exact .worker rfl (.inr (.inl ⟨_, rfl⟩))
  | deliver j =>
    obtain ⟨-, rfl⟩ := of_ite_some hs
    exact .worker rfl (.inr (.inr ⟨j, rfl, rfl⟩))
  | redeliver => exact .api (.inr rfl) hs
  | request | advanceRequest | timeout | failRequest | publish | returnThread | raiseThread => exact .api (.inl rfl) hs
  | setHold | clearHold =>
    cases hs
    exact .hold rfl
  | advanceHold i =>
    obtain ⟨hold, lock, stage, rfl, -⟩ := advanceHold_eq hs
    exact .hold rfl
  | abortHold i =>
    obtain ⟨-, rfl⟩ := of_ite_none hs
    exact .hold rfl
  | write =>
    cases hs
    exact .write rfl
  | advanceWrite i =>
    obtain ⟨memories, lock, stage, rfl, -⟩ := advanceWrite_eq hs
    exact .write rfl
  | abortWrite i =>
    obtain ⟨-, rfl⟩ := of_ite_some hs
    exact .write rfl

theorem writes_step : w'.writes = w.writes ∨
      ∃ i stage, w'.writes = update w.writes i stage ∧ (stage = .committed → w.writes i = .commit) := by
  cases a with
  | advanceWrite i =>
    obtain ⟨memories, lock, stage, rfl, hc⟩ := advanceWrite_eq hs
    exact .inr ⟨i, stage, rfl, hc⟩
  | abortWrite i =>
    obtain ⟨-, rfl⟩ := of_ite_some hs
    exact .inr ⟨i, .failed, rfl, nofun⟩
  | write =>
    cases hs
    exact .inr ⟨w.nextWrite, .lock, rfl, nofun⟩
  | _ => exact .inl ((step_frame hs).writes nofun).1

theorem requests_step : w'.requests = w.requests ∨ ∃ r R, w'.requests = update w.requests r R ∧
      (r ≠ w.nextRequest → (w.requests r).stage = .accepted → R.stage = .accepted) ∧
      (R.published = true → (w.requests r).published = true ∨ a = .publish r) := by
  cases a with
  | request =>
    cases hs
    exact .inr ⟨w.nextRequest, _, rfl, fun hne => absurd rfl hne, nofun⟩
  | advanceRequest r =>
    obtain ⟨jobs, cancelled, R, rfl, hans, hpub, -⟩ := advanceRequest_eq hs
    exact .inr ⟨r, R, rfl, fun _ hacc => by simp [answered, hacc] at hans, fun hp => .inl (hpub ▸ hp)⟩
  | timeout r =>
    obtain ⟨hstage, rfl⟩ := of_ite_some hs
    exact .inr ⟨r, _, rfl, by simp [hstage], .inl⟩
  | failRequest r =>
    obtain ⟨hans, rfl⟩ := of_ite_none hs
    exact .inr ⟨r, _, rfl, fun _ hstage => absurd (by simp [answered, hstage]) hans, .inl⟩
  | publish r =>
    obtain ⟨-, rfl⟩ := of_ite_some hs
    exact .inr ⟨r, _, rfl, fun _ => id, fun _ => .inr rfl⟩
  | returnThread r | raiseThread r =>
    obtain ⟨-, rfl⟩ := of_ite_some hs
    exact .inr ⟨r, _, rfl, fun _ => id, .inl⟩
  | _ => exact .inl ((step_frame hs).requests nofun).1

theorem unpublished_step (ha : a ≠ .publish r)
    (hr : (w.requests r).published = false) : (w'.requests r).published = false := by
  rcases requests_step hs with hsame | ⟨r', R, hset, -, hpub⟩
  · rwa [hsame]
  · rw [hset]
    by_cases heq : r = r'
    · subst heq
      rw [update_self]
      by_contra hpub'
      rcases hpub (by simpa using hpub') with hold | hact
      · simp [hr] at hold
      · exact ha hact
    · rwa [update_of_ne heq]

/-! ## Steps that commit -/

theorem step_committed :
    (∃ t next, a = .advance t ∧ (w.tasks t).statement S w.toTables = some (.commit next) ∧ w' = w.commit t next) ∨
      (∃ r status, a = .advanceRequest r ∧ Creates w w' r status) ∨ SameCommitted w w' := by
  cases a with
  | advance t =>
    obtain ⟨st, hst, hs⟩ := bind_eq_some_iff.mp hs
    rcases exec_committed hs with ⟨next, rfl, hw⟩ | hsame
    · exact .inl ⟨t, next, rfl, hst, hw⟩
    · exact .inr (.inr hsame)
  | advanceRequest r =>
    rcases advanceRequest_committed hs with ⟨status, hc⟩ | hsame
    · exact .inr (.inl ⟨r, status, rfl, hc⟩)
    · exact .inr (.inr hsame)
  | error t =>
    obtain ⟨-, rfl⟩ := of_ite_some hs
    exact .inr (.inr (.raise none))
  | advanceHold i =>
    obtain ⟨hold, lock, stage, rfl, hhold⟩ := advanceHold_eq hs
    exact .inr (.inr ⟨rfl, rfl, rfl, fun htrue => (hhold htrue).imp_right fun hstage => ⟨i, hstage⟩⟩)
  | advanceWrite i =>
    obtain ⟨memories, lock, stage, rfl, -⟩ := advanceWrite_eq hs
    exact .inr (.inr ⟨rfl, rfl, rfl, .inl⟩)
  | request | setHold | write =>
    cases hs
    exact .inr (.inr ⟨rfl, rfl, rfl, .inl⟩)
  | clearHold =>
    cases hs
    exact .inr (.inr ⟨rfl, rfl, rfl, nofun⟩)
  | failRequest | abortHold =>
    obtain ⟨-, rfl⟩ := of_ite_none hs
    exact .inr (.inr ⟨rfl, rfl, rfl, .inl⟩)
  | timeout | publish | returnThread | raiseThread | deliver | redeliver | crash | abortWrite =>
    obtain ⟨-, rfl⟩ := of_ite_some hs
    exact .inr (.inr ⟨rfl, rfl, rfl, .inl⟩)

end

end IbexHarness.OrgDeletion
