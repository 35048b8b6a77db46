import IbexHarness.Lib.Text
import IbexHarness.Lib.Machine
import IbexHarness.Lib.RowLock
import Mathlib.Data.Int.Order.Basic

/-! The transactions of `services/memory` that write, supersede, flag and forget memories, on one organization. -/

namespace IbexHarness.Memory

open Lib Function

/-! ## Rows and triggers -/

inductive SessionStatus where
  | active
  | completed
  | abandoned
  | error
deriving DecidableEq

structure SessionRow where
  agentID : Uuid
  status : SessionStatus
  deleted : Bool
  lifecycleRevision : Int
deriving DecidableEq

def bumpSessionLifecycleRevision (old new : SessionRow) : SessionRow :=
  if new.status ≠ old.status ∨ new.deleted ≠ old.deleted ∨ new.agentID ≠ old.agentID then
    { new with lifecycleRevision := old.lifecycleRevision + 1 }
  else if new.lifecycleRevision ≠ old.lifecycleRevision then
    { new with lifecycleRevision := old.lifecycleRevision + 1 }
  else { new with lifecycleRevision := old.lifecycleRevision }

inductive MemoryStatus where
  | active
  | superseded
  | mergedInto
  | archived
  | quarantined
  | deleted
deriving DecidableEq

/-- `memories`, with the columns that the transactions below read or write. -/
structure MemoryRow where
  agentID : Uuid
  sessionID : Option Uuid
  status : MemoryStatus
  supersededBy : Option Nat
  deleted : Bool
  tombstoned : Bool
  lifecycleRevision : Int
deriving DecidableEq

/-- `bump_memory_lifecycle_revision`, which raises when a tombstone is taken back; `content` says that one of the
columns that are not modelled is changed. -/
def bumpMemoryLifecycleRevision (old new : MemoryRow) (content : Bool) : Option MemoryRow :=
  if old.tombstoned && !new.tombstoned then none
  else if new.status ≠ old.status ∨ new.deleted ≠ old.deleted ∨ new.tombstoned ≠ old.tombstoned ∨
      new.supersededBy ≠ old.supersededBy ∨ new.agentID ≠ old.agentID ∨ content then
    some { new with lifecycleRevision := old.lifecycleRevision + 1 }
  else some { new with lifecycleRevision := old.lifecycleRevision }

/-! ## Requests -/

inductive Persist where
  | quarantine
  /-- with the memories it supersedes and the revisions that were seen of them -/
  | active (supersede : List (Nat × Option Int))
  /-- its content is that of an active memory, whose retrieval count goes up -/
  | duplicate (existing : Nat)
deriving DecidableEq

structure Command where
  agentID : Uuid
  sessionID : Option Uuid
  expectedSessionRevision : Option Int
  persist : Persist
deriving DecidableEq

/-- A memory's id is a random UUID, which is known only once the memory is committed; any other UUID
is none. -/
structure ForgetMemory where
  agentID : Uuid
  memoryID : Option Nat
  expectedRevision : Int
deriving DecidableEq

structure MemoryPiiUpdate where
  memoryID : Nat
  status : MemoryStatus
  /-- the content or a flag changes -/
  content : Bool
  expectedRevision : Int
deriving DecidableEq

structure SessionUpdate where
  status : Option SessionStatus
  deleted : Option Bool
  lifecycleRevision : Option Int
deriving DecidableEq

def SessionUpdate.set (u : SessionUpdate) (r : SessionRow) : SessionRow :=
  ⟨r.agentID, u.status.getD r.status, u.deleted.getD r.deleted, u.lifecycleRevision.getD r.lifecycleRevision⟩

/-! ## Transactions -/

inductive Stage where
  | idle
  /-- `lock_organization_for_memory_write` -/
  | writeLock (c : Command)
  /-- `require_extraction_session` -/
  | writeFence (c : Command)
  /-- `insert_memory_session`, or `increment_retrieval_count_session` -/
  | writePersist (c : Command)
  /-- `apply_supersession_session` for the memories that are left -/
  | writeSupersede (c : Command) (memoryID : Nat) (targets : List (Nat × Option Int))
  | writeCommit (c : Command)
  | forgetLock (f : ForgetMemory)
  /-- `_memory_source_session_id` -/
  | forgetSource (f : ForgetMemory)
  /-- `_lock_source_session` -/
  | forgetSession (f : ForgetMemory) (sessionID : Uuid)
  /-- `_require_forget_target` -/
  | forgetTarget (f : ForgetMemory) (source : Option Uuid)
  /-- `_tombstone_memory` -/
  | forgetTombstone (f : ForgetMemory) (source : Option Uuid)
  /-- `_advance_source_session_revision` -/
  | forgetAdvance (f : ForgetMemory) (source : Option Uuid)
  | forgetCommit (f : ForgetMemory)
  | piiLock (u : MemoryPiiUpdate)
  | piiUpdate (u : MemoryPiiUpdate)
  | updateRow (sessionID : Uuid) (u : SessionUpdate)
  | updateCommit
  | done
deriving DecidableEq

structure Txn where
  stage : Stage
  sessions : List (Uuid × Option SessionRow)
  memories : List (Nat × Option MemoryRow)

structure Tables where
  sessions : RowStore Uuid (Option SessionRow) Nat
  memories : RowStore Nat (Option MemoryRow) Nat
  nextMemoryID : Nat

structure World extends Tables where
  /-- neither cancelled nor deleted -/
  orgAvailable : Bool
  txns : Nat → Txn

inductive Action where
  | write (t : Nat) (c : Command)
  | forget (t : Nat) (f : ForgetMemory)
  | pii (t : Nat) (u : MemoryPiiUpdate)
  | update (t : Nat) (sessionID : Uuid) (u : SessionUpdate)
  /-- the next statement of the transaction -/
  | advance (t : Nat)
  /-- an error at any statement, or a crash -/
  | abort (t : Nat)
  | createSession (sessionID : Uuid) (agentID : Uuid)
  | setOrganization (available : Bool)

namespace World

variable (w : World) (t : Nat)

def setStage (stage : Stage) : World :=
  { w with txns := update w.txns t { w.txns t with stage } }

def rollback : World :=
  { w with
    sessions := w.sessions.rollback t
    memories := w.memories.rollback t
    txns := update w.txns t ⟨.done, [], []⟩ }

def commit : World :=
  { w with
    sessions := w.sessions.commitAll t (w.txns t).sessions
    memories := w.memories.commitAll t (w.txns t).memories
    txns := update w.txns t ⟨.done, [], []⟩ }

def lockSession (s : Uuid) : Option World := (w.sessions.acquire t s).map fun sessions => { w with sessions }

def writeSession (s : Uuid) (row : SessionRow) (stage : Stage) : World :=
  { w with txns := update w.txns t { w.txns t with stage, sessions := (s, some row) :: (w.txns t).sessions } }

def lockMemory (m : Nat) : Option World := (w.memories.acquire t m).map fun memories => { w with memories }

def writeMemory (m : Nat) (row : MemoryRow) (stage : Stage) : World :=
  { w with txns := update w.txns t { w.txns t with stage, memories := (m, some row) :: (w.txns t).memories } }

/-- A memory row as the transaction sees it: its own version before the committed one. -/
def memory (m : Nat) : Option MemoryRow := ((w.txns t).memories.lookup m).getD (w.memories.rows m)

/-! ### Writes -/

def matchesSessionFence (row : SessionRow) (c : Command) (expected : Int) : Bool :=
  row.agentID = c.agentID && row.status = .completed && !row.deleted && row.lifecycleRevision = expected

def requireExtractionSession (c : Command) : Option World :=
  match c.sessionID, c.expectedSessionRevision with
  | none, none => some (w.setStage t (.writePersist c))
  | none, some _ => some (w.rollback t)
  | some _, none => some (w.rollback t)
  | some s, some expected =>
    if expected < 1 then some (w.rollback t)
    else match w.sessions.rows s with
      | none => some (w.rollback t)
      | some row => (w.lockSession t s).map fun w =>
        if matchesSessionFence row c expected then w.setStage t (.writePersist c) else w.rollback t

def insertMemory (c : Command) (status : MemoryStatus) (next : Stage) : Option World :=
  (w.lockMemory t w.nextMemoryID).map fun w =>
    { w with nextMemoryID := w.nextMemoryID + 1 }.writeMemory t w.nextMemoryID
      ⟨c.agentID, c.sessionID, status, none, false, false, 1⟩ next

/-- An UPDATE of a memory row: `new` for a row that meets the condition. -/
def updateMemory (m : Nat) (meets : MemoryRow → Bool) (new : MemoryRow → MemoryRow) (content : Bool) (next : Stage) :
    Option World :=
  match w.memory t m with
  | none => some (w.rollback t)
  | some old =>
    if meets old then
      match bumpMemoryLifecycleRevision old (new old) content with
      | none => some (w.rollback t)
      | some row => (w.lockMemory t m).map fun w => w.writeMemory t m row next
    else some (w.rollback t)

def incrementRetrievalCount (m : Nat) (next : Stage) : Option World :=
  w.updateMemory t m (fun old => old.status = .active && !old.deleted && !old.tombstoned) id false next

def applySupersession (c : Command) (memoryID target : Nat) (expected : Int) (next : Stage) : Option World :=
  w.updateMemory t target
    (fun old => old.agentID = c.agentID && old.status = .active && !old.deleted && !old.tombstoned &&
      old.lifecycleRevision = expected)
    (fun old => { old with status := .superseded, supersededBy := some memoryID }) true next

def updateMemoryPiiFlags (u : MemoryPiiUpdate) (next : Stage) : Option World :=
  w.updateMemory t u.memoryID
    (fun old => !old.deleted && !old.tombstoned && old.lifecycleRevision = u.expectedRevision)
    (fun old => { old with status := u.status }) u.content next

/-! ### Forgets -/

def memorySourceSession (f : ForgetMemory) : World :=
  match f.memoryID.bind w.memories.rows with
  | none => w.setStage t (.forgetTarget f none)
  | some row =>
    if row.agentID = f.agentID then
      w.setStage t (row.sessionID.elim (.forgetTarget f none) (.forgetSession f))
    else w.setStage t (.forgetTarget f none)

def lockSourceSession (f : ForgetMemory) (s : Uuid) : Option World :=
  match w.sessions.rows s with
  | none => some (w.setStage t (.forgetTarget f none))
  | some row =>
    if row.agentID = f.agentID then (w.lockSession t s).map fun w => w.setStage t (.forgetTarget f (some s))
    else some (w.setStage t (.forgetTarget f none))

def requireForgetTarget (f : ForgetMemory) (source : Option Uuid) : Option World :=
  match f.memoryID with
  | none => some (w.rollback t)
  | some m =>
    match w.memories.rows m with
    | none => some (w.rollback t)
    | some row =>
      if row.agentID = f.agentID then
        (w.lockMemory t m).map fun w =>
          if row.tombstoned || row.lifecycleRevision ≠ f.expectedRevision then w.rollback t
          else w.setStage t (.forgetTombstone f source)
      else some (w.rollback t)

def tombstoneMemory (f : ForgetMemory) (source : Option Uuid) : Option World :=
  match f.memoryID with
  | none => some (w.rollback t)
  | some m =>
    w.updateMemory t m
      (fun old => old.agentID = f.agentID && old.lifecycleRevision = f.expectedRevision && !old.tombstoned)
      (fun old => { old with status := .deleted, deleted := true, tombstoned := true }) false (.forgetAdvance f source)

def advanceSourceSession (f : ForgetMemory) : Option Uuid → World
  | none => w.setStage t (.forgetCommit f)
  | some s =>
    match w.sessions.rows s with
    | none => w.setStage t (.forgetCommit f)
    | some old =>
      if old.agentID = f.agentID then
        let new := { old with lifecycleRevision := old.lifecycleRevision + 1 }
        w.writeSession t s (bumpSessionLifecycleRevision old new) (.forgetCommit f)
      else w.setStage t (.forgetCommit f)

/-! ### Updates of a session -/

def updateSession (s : Uuid) (u : SessionUpdate) : Option World :=
  match w.sessions.rows s with
  | none => some (w.setStage t .updateCommit)
  | some old => (w.lockSession t s).map fun w =>
    w.writeSession t s (bumpSessionLifecycleRevision old (u.set old)) .updateCommit

/-! ### The machine -/

def advance : Option World :=
  match (w.txns t).stage with
  | .writeLock c => some (if w.orgAvailable then w.setStage t (.writeFence c) else w.rollback t)
  | .writeFence c => w.requireExtractionSession t c
  | .writePersist c =>
    match c.persist with
    | .quarantine => w.insertMemory t c .quarantined (.writeCommit c)
    | .active supersede => w.insertMemory t c .active (.writeSupersede c w.nextMemoryID supersede)
    | .duplicate existing => w.incrementRetrievalCount t existing (.writeCommit c)
  | .writeSupersede c _ [] => some (w.setStage t (.writeCommit c))
  | .writeSupersede _ _ ((_, none) :: _) => some (w.rollback t)
  | .writeSupersede c memoryID ((target, some expected) :: targets) =>
    w.applySupersession t c memoryID target expected (.writeSupersede c memoryID targets)
  | .forgetLock f =>
    some (if 1 ≤ f.expectedRevision && w.orgAvailable then w.setStage t (.forgetSource f) else w.rollback t)
  | .forgetSource f => some (w.memorySourceSession t f)
  | .forgetSession f s => w.lockSourceSession t f s
  | .forgetTarget f source => w.requireForgetTarget t f source
  | .forgetTombstone f source => w.tombstoneMemory t f source
  | .forgetAdvance f source => some (w.advanceSourceSession t f source)
  | .piiLock u => some (if w.orgAvailable then w.setStage t (.piiUpdate u) else w.rollback t)
  | .piiUpdate u => w.updateMemoryPiiFlags t u .updateCommit
  | .updateRow s u => w.updateSession t s u
  | .writeCommit _ | .forgetCommit _ | .updateCommit => some (w.commit t)
  | .idle | .done => none

end World

def World.step (w : World) : Action → Option World
  | .write t c => if (w.txns t).stage = .idle then some (w.setStage t (.writeLock c)) else none
  | .forget t f =>
    -- the memory that the request names is a committed one
    if (w.txns t).stage = .idle && f.memoryID.all (fun m => (w.memories.rows m).isSome) then
      some (w.setStage t (.forgetLock f))
    else none
  | .pii t u => if (w.txns t).stage = .idle then some (w.setStage t (.piiLock u)) else none
  | .update t s u => if (w.txns t).stage = .idle then some (w.setStage t (.updateRow s u)) else none
  | .advance t => w.advance t
  | .abort t => if (w.txns t).stage = .idle then none else some (w.rollback t)
  | .createSession s agentID =>
    match w.sessions.rows s with
    | some _ => none
    | none =>
      let row : SessionRow := ⟨agentID, .active, false, 1⟩
      some { w with sessions := { w.sessions with rows := update w.sessions.rows s (some row) } }
  | .setOrganization available => some { w with orgAvailable := available }

/-- Before the first transaction, the session of every memory is there and has the memory's agent. -/
def machine : Machine World Action where
  init w := (∀ t, w.txns t = ⟨.idle, [], []⟩) ∧ (∀ s, w.sessions.lock s = none) ∧ (∀ m, w.memories.lock m = none) ∧
    ∀ m row, w.memories.rows m = some row → m < w.nextMemoryID ∧
      ∀ s, row.sessionID = some s → ∃ r, w.sessions.rows s = some r ∧ r.agentID = row.agentID
  step := World.step

end IbexHarness.Memory
