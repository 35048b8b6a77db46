import IbexHarness.Lib.Machine
import IbexHarness.Lib.RowLock

/-! `enqueue_org_deletion`, the task `delete_organization`, legal holds and memory writes of one organization. -/

namespace IbexHarness.OrgDeletion

open Lib Function

section

/-! ## Rows -/

inductive Store where
  | postgres
  | clickhouse
  | redis
  | objectstore
deriving DecidableEq

inductive JobStatus where
  | pending
  | running
  | succeeded
  | failed
  | holdBlocked
deriving DecidableEq

inductive ReceiptStatus where
  | verified
  | failed
  | notApplicable
deriving DecidableEq

structure ReceiptKey where
  job : Nat
  store : Store
deriving DecidableEq

/-- The stores that are deployed, and those with a runtime configuration. -/
structure Settings where
  deployed : Store → Bool
  configured : Store → Bool
  postgres_deployed : deployed .postgres = true

inductive Owner where
  | task (t : Nat)
  | hold (i : Nat)
  | write (i : Nat)
deriving DecidableEq

structure Tables where
  cancelled : Bool
  deleted : Bool
  /-- a legal hold is active; there is at most one -/
  hold : Bool
  lock : SharedLock Owner
  jobs : RowStore Nat (Option JobStatus) Nat
  receipts : RowStore ReceiptKey (Option ReceiptStatus) Nat
  memories : List Nat
  /-- stages that have run, by job -/
  ran : List ReceiptKey
  /-- jobs of committed PostgreSQL purges -/
  purged : List Nat
  certificates : List Nat

/-! ## Tasks -/

inductive Phase where
  /-- `_claim_and_purge_postgres` -/
  | first
  /-- `_run_post_postgres` -/
  | second
  /-- `_record_job_failed` -/
  | failing
deriving DecidableEq

inductive TaskStage where
  | idle
  /-- `_claim_job` -/
  | claim
  /-- `_finish_if_hold_blocked` -/
  | lock
  | checkHold
  | auditBlocked
  /-- `receipt_verified`, `receipt_terminal` -/
  | receipt (s : Store)
  /-- `_require_no_hold` -/
  | requireLock (s : Store)
  | requireHold (s : Store)
  | run (s : Store)
  | upsert (s : Store) (r : ReceiptStatus)
  | commitPurge
  /-- `_publish_model_policy_invalidate` -/
  | publish
  /-- `_all_receipts_satisfied`, from a store on -/
  | finalize (s : Store)
  /-- `_audit_append` of the certificate -/
  | certificate
  /-- `_finish_job` -/
  | finish (status : JobStatus)
  | commit
  /-- the receipt of an unreachable store -/
  | failReceipt (s : Store)
  | done
deriving DecidableEq

structure Task where
  job : Nat
  phase : Phase
  stage : TaskStage
  /-- what the open transaction has written -/
  jobs : List (Nat × Option JobStatus)
  receipts : List (ReceiptKey × Option ReceiptStatus)
  purge : Option (List Nat)
  certified : Bool
  /-- the open transaction has found no legal hold -/
  checked : Bool
  /-- `running` obtained through `_claim_job`, and not yet finished by this task -/
  claimed : Bool

def Task.idle : Task := ⟨0, .first, .idle, [], [], none, false, false, false⟩

def Task.start (job : Nat) : Task := { Task.idle with job, stage := .claim }

def Task.ended (T : Task) (phase : Phase) (stage : TaskStage) (claimed : Bool) : Task :=
  ⟨T.job, phase, stage, [], [], none, false, false, claimed⟩

def Task.receipt (T : Task) (w : Tables) (s : Store) : Option ReceiptStatus :=
  (T.receipts.lookup ⟨T.job, s⟩).getD (w.receipts.rows ⟨T.job, s⟩)

inductive Statement where
  /-- a read or a decision, of which only the next stage is left -/
  | read (next : TaskStage)
  | advisoryLock (next : TaskStage)
  /-- a read that found no legal hold -/
  | noHold (next : TaskStage)
  | claim (next : TaskStage)
  | updateJob (status : JobStatus) (next : TaskStage)
  | upsertReceipt (s : Store) (r : ReceiptStatus) (next : TaskStage)
  | runStage (s : Store) (next : TaskStage)
  | certify (next : TaskStage)
  | raise (unreachable : Option Store)
  | commit (next : TaskStage)

def Store.after : Store → TaskStage
  | .postgres => .commitPurge
  | .clickhouse => .receipt .redis
  | .redis => .receipt .objectstore
  | .objectstore => .finalize .postgres

def Store.afterFinalize : Store → TaskStage
  | .postgres => .finalize .clickhouse
  | .clickhouse => .finalize .redis
  | .redis => .finalize .objectstore
  | .objectstore => .certificate

def runOneStore (r : Option ReceiptStatus) : Statement :=
  if r = some .verified then .read .commitPurge else .read (.requireLock .postgres)

def runOptionalStore (S : Settings) (s : Store) (r : Option ReceiptStatus) : Statement :=
  if r = some .verified ∨ r = some .notApplicable then .read s.after
  else if !S.deployed s then .read (.upsert s .notApplicable)
  else if !S.configured s then .raise (some s)
  else .read (.requireLock s)

/-- The statement of a task at its stage; the answers of reads are those of the moment. -/
def Task.statement (S : Settings) (w : Tables) (T : Task) : Option Statement :=
  match T.stage with
  | .idle | .done => none
  | .claim =>
    match w.jobs.rows T.job with
    | some .pending | some .failed => some (.claim .lock)
    | _ => some (.read .done)
  | .lock => some (.advisoryLock .checkHold)
  | .checkHold => some (if w.hold then .read .auditBlocked else .noHold (.receipt .postgres))
  -- `privacy_audit_append` takes the advisory lock too
  | .auditBlocked => some (.advisoryLock (.finish .holdBlocked))
  | .receipt .postgres => some (runOneStore (T.receipt w .postgres))
  | .receipt s => some (runOptionalStore S s (T.receipt w s))
  | .requireLock s => some (.advisoryLock (.requireHold s))
  | .requireHold s => some (if w.hold then .raise none else .noHold (.run s))
  | .run s => some (.runStage s (.upsert s .verified))
  | .upsert s r => some (.upsertReceipt s r s.after)
  | .commitPurge => some (.commit .publish)
  | .publish => some (.read (.receipt .clickhouse))
  | .finalize s =>
    some (if T.receipt w s = some (if S.deployed s then .verified else .notApplicable) then .read s.afterFinalize
      else .read (.finish .failed))
  | .certificate => some (.certify (.finish .succeeded))
  | .finish status => some (if (w.jobs.rows T.job).isSome then .updateJob status .commit else .read .commit)
  | .commit => some (.commit .done)
  | .failReceipt s => some (.upsertReceipt s .failed (.finish .failed))

end

/-! The broker delivers a message again after a crash; a task that raises has been acknowledged. -/

/-! ## Other parties -/

inductive Thread where
  | none
  | running
  | returned
  | raised
deriving DecidableEq

inductive RequestStage where
  | idle
  /-- `get_organization` -/
  | get
  /-- `_assert_deletion_allowed` -/
  | checkHold (cancelled : Bool)
  | checkLatest
  /-- `_create_deletion_job_row` -/
  | create
  /-- `_dispatch_deletion_enqueue` -/
  | dispatch
  /-- `_mark_deletion_job_failed` and the commit -/
  | markFailed
  /-- `_cancel_organization` and the commit -/
  | cancel
  | accepted
  | refused
deriving DecidableEq

structure Request where
  stage : RequestStage
  thread : Thread
  published : Bool

inductive HoldStage where
  | idle
  | lock
  | insert
  | commit
  | done
deriving DecidableEq

inductive WriteStage where
  | idle
  /-- `lock_organization_for_memory_write` -/
  | lock
  | check
  /-- `insert_memory_session` -/
  | insert
  | commit
  | committed
  | failed
deriving DecidableEq

structure World extends Tables where
  queue : List Nat
  requests : Nat → Request
  nextRequest : Nat
  tasks : Nat → Task
  nextTask : Nat
  holds : Nat → HoldStage
  nextHold : Nat
  writes : Nat → WriteStage
  nextWrite : Nat

inductive Action where
  /-- a DELETE arrives -/
  | request
  | advanceRequest (r : Nat)
  /-- `wait_for` gives up -/
  | timeout (r : Nat)
  /-- a database error in the request, or the end of its process -/
  | failRequest (r : Nat)
  | publish (r : Nat)
  | returnThread (r : Nat)
  | raiseThread (r : Nat)
  | deliver (j : Nat)
  /-- the broker delivers a message once more -/
  | redeliver (j : Nat)
  | advance (t : Nat)
  /-- a database error at the task's statement -/
  | error (t : Nat)
  | crash (t : Nat)
  | setHold
  | advanceHold (i : Nat)
  | abortHold (i : Nat)
  | clearHold
  | write
  | advanceWrite (i : Nat)
  | abortWrite (i : Nat)
deriving DecidableEq

namespace World

variable (w : World)

/-! ## Tasks -/

def setTask (t : Nat) (T : Task) : World := { w with tasks := update w.tasks t T }

/-- The end of a transaction without a commit. A claim that is not committed is lost. -/
def rollback (t : Nat) (phase : Phase) (stage : TaskStage) : World :=
  { w with
    jobs := w.jobs.rollback t
    receipts := w.receipts.rollback t
    lock := w.lock.release (.task t) }.setTask t
      ((w.tasks t).ended phase stage ((w.tasks t).claimed && (w.tasks t).phase ≠ Phase.first))

/-- An exception: `_record_job_failed`, unless it comes from there. -/
def raise (t : Nat) (unreachable : Option Store) : World :=
  if (w.tasks t).phase = .failing then w.rollback t .failing .done
  else w.rollback t .failing (unreachable.elim (.finish .failed) .failReceipt)

def commit (t : Nat) (next : TaskStage) : World :=
  let T := w.tasks t
  { w with
    cancelled := w.cancelled || T.purge.isSome
    deleted := w.deleted || T.purge.isSome
    lock := w.lock.release (.task t)
    jobs := w.jobs.commitAll t T.jobs
    receipts := w.receipts.commitAll t T.receipts
    memories := T.purge.elim w.memories fun ids => w.memories.filter (· ∉ ids)
    purged := if T.purge.isSome then T.job :: w.purged else w.purged
    certificates := if T.certified then T.job :: w.certificates else w.certificates }.setTask t
      (T.ended (if next = TaskStage.publish then .second else T.phase) next (T.claimed && next = TaskStage.publish))

def exec (t : Nat) : Statement → Option World
  | .read next => some (w.setTask t { w.tasks t with stage := next })
  | .advisoryLock next =>
    (w.lock.acquire (.task t)).map fun lock => { w with lock }.setTask t { w.tasks t with stage := next }
  | .noHold next => some (w.setTask t { w.tasks t with stage := next, checked := true })
  | .claim next =>
    (w.jobs.acquire t (w.tasks t).job).map fun jobs => { w with jobs }.setTask t
      { w.tasks t with stage := next, jobs := ((w.tasks t).job, some .running) :: (w.tasks t).jobs, claimed := true }
  | .updateJob status next =>
    (w.jobs.acquire t (w.tasks t).job).map fun jobs => { w with jobs }.setTask t
      { w.tasks t with stage := next, jobs := ((w.tasks t).job, some status) :: (w.tasks t).jobs }
  | .upsertReceipt s r next =>
    (w.receipts.acquire t ⟨(w.tasks t).job, s⟩).map fun receipts => { w with receipts }.setTask t
      { w.tasks t with stage := next, receipts := (⟨(w.tasks t).job, s⟩, some r) :: (w.tasks t).receipts }
  -- the purge is written in the transaction; the other stores are erased at once
  | .runStage s next =>
    some ({ w with ran := ⟨(w.tasks t).job, s⟩ :: w.ran }.setTask t
      { w.tasks t with stage := next, purge := if s = Store.postgres then some w.memories else (w.tasks t).purge })
  | .certify next =>
    (w.lock.acquire (.task t)).map fun lock => { w with lock }.setTask t
      { w.tasks t with stage := next, certified := true }
  | .raise unreachable => some (w.raise t unreachable)
  | .commit next => some (w.commit t next)

def active (t : Nat) : Bool := (w.tasks t).stage ≠ .idle && (w.tasks t).stage ≠ .done

/-! ## Requests -/

def setRequest (r : Nat) (R : Request) : World := { w with requests := update w.requests r R }

def setStage (r : Nat) (stage : RequestStage) : World := w.setRequest r { w.requests r with stage }

def createJob (r : Nat) (status : JobStatus) : World :=
  { w with jobs := { w.jobs with rows := update w.jobs.rows r (some status) } }

def latestDeletionJobStatus : Option JobStatus := (List.range w.nextRequest).reverse.findSome? w.jobs.rows

def advanceRequest (r : Nat) : Option World :=
  match (w.requests r).stage with
  | .get => some (if w.deleted then w.setStage r .refused else w.setStage r (.checkHold w.cancelled))
  | .checkHold cancelled =>
    some (if w.hold then w.setStage r .refused
      else if cancelled then w.setStage r .checkLatest else w.setStage r .create)
  | .checkLatest =>
    some (if w.latestDeletionJobStatus = some .failed then w.setStage r .create else w.setStage r .refused)
  | .create => some (w.setRequest r { w.requests r with stage := .dispatch, thread := .running })
  | .dispatch =>
    match (w.requests r).thread with
    | .returned => some (w.setStage r .cancel)
    | .raised => some (w.setStage r .markFailed)
    | .none | .running => none
  | .markFailed => some ((w.createJob r .failed).setStage r .refused)
  | .cancel =>
    some ({ w.createJob r .pending with cancelled := w.cancelled || !w.deleted }.setStage r .accepted)
  | .idle | .accepted | .refused => none

def answered (r : Nat) : Bool :=
  (w.requests r).stage = .idle || (w.requests r).stage = .accepted || (w.requests r).stage = .refused

/-! ## Holds and memory writes -/

def setHoldStage (i : Nat) (stage : HoldStage) : World := { w with holds := update w.holds i stage }

def endHold (i : Nat) : World := { w with lock := w.lock.release (.hold i) }.setHoldStage i .done

def advanceHold (i : Nat) : Option World :=
  match w.holds i with
  | .lock => (w.lock.acquire (.hold i)).map fun lock => { w with lock }.setHoldStage i .insert
  -- `legal_holds_one_active_per_scope`
  | .insert => some (if w.hold then w.endHold i else w.setHoldStage i .commit)
  | .commit => some ({ w with hold := true }.endHold i)
  | .idle | .done => none

def setWriteStage (i : Nat) (stage : WriteStage) : World := { w with writes := update w.writes i stage }

def endWrite (i : Nat) (stage : WriteStage) : World :=
  { w with lock := w.lock.release (.write i) }.setWriteStage i stage

def advanceWrite (i : Nat) : Option World :=
  match w.writes i with
  | .lock => (w.lock.share (.write i)).map fun lock => { w with lock }.setWriteStage i .check
  | .check => some (if w.cancelled || w.deleted then w.endWrite i .failed else w.setWriteStage i .insert)
  | .insert => some (w.setWriteStage i .commit)
  | .commit => some ({ w with memories := i :: w.memories }.endWrite i .committed)
  | .idle | .committed | .failed => none

def writing (i : Nat) : Bool := w.writes i ≠ .idle && w.writes i ≠ .committed && w.writes i ≠ .failed

end World

/-! ## The machine -/

def World.step (S : Settings) (w : World) : Action → Option World
  | .request =>
    some { w.setRequest w.nextRequest ⟨.get, .none, false⟩ with nextRequest := w.nextRequest + 1 }
  | .advanceRequest r => w.advanceRequest r
  | .timeout r => if (w.requests r).stage = .dispatch then some (w.setStage r .markFailed) else none
  | .failRequest r => if w.answered r then none else some (w.setStage r .refused)
  | .publish r =>
    if (w.requests r).thread = .running ∧ (w.requests r).published = false then
      some { w.setRequest r { w.requests r with published := true } with queue := r :: w.queue }
    else none
  | .returnThread r =>
    if (w.requests r).thread = .running ∧ (w.requests r).published = true then
      some (w.setRequest r { w.requests r with thread := .returned })
    else none
  | .raiseThread r =>
    if (w.requests r).thread = .running then some (w.setRequest r { w.requests r with thread := .raised }) else none
  | .deliver j =>
    if j ∈ w.queue then
      some { w.setTask w.nextTask (.start j) with queue := w.queue.erase j, nextTask := w.nextTask + 1 }
    else none
  | .redeliver j => if (w.requests j).published then some { w with queue := j :: w.queue } else none
  | .advance t => ((w.tasks t).statement S w.toTables).bind (w.exec t)
  | .error t => if w.active t then some (w.raise t none) else none
  | .crash t =>
    if w.active t then
      some { w.rollback t (w.tasks t).phase .done with queue := (w.tasks t).job :: w.queue }
    else none
  | .setHold => some { w.setHoldStage w.nextHold .lock with nextHold := w.nextHold + 1 }
  | .advanceHold i => w.advanceHold i
  | .abortHold i => if w.holds i = .idle ∨ w.holds i = .done then none else some (w.endHold i)
  | .clearHold => some { w with hold := false }
  | .write => some { w.setWriteStage w.nextWrite .lock with nextWrite := w.nextWrite + 1 }
  | .advanceWrite i => w.advanceWrite i
  | .abortWrite i => if w.writing i then some (w.endWrite i .failed) else none

def World.initial (w : World) : Prop :=
  w.lock = .free ∧ w.jobs = ⟨fun _ => none, fun _ => none⟩ ∧ w.receipts = ⟨fun _ => none, fun _ => none⟩ ∧
    w.ran = [] ∧ w.purged = [] ∧ w.certificates = [] ∧ w.queue = [] ∧ w.requests = (fun _ => ⟨.idle, .none, false⟩) ∧
    w.tasks = (fun _ => .idle) ∧ w.holds = (fun _ => .idle) ∧ w.writes = (fun _ => .idle) ∧ w.nextRequest = 0 ∧
    w.nextTask = 0 ∧ w.nextHold = 0 ∧ w.nextWrite = 0

def machine (S : Settings) : Machine World Action where
  init := World.initial
  step := World.step S

end IbexHarness.OrgDeletion
