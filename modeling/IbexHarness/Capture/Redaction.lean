import IbexHarness.Lib.Json
import IbexHarness.Lib.Machine
import IbexHarness.Lib.RowLock

/-! `apply_capture_redaction` of `services/worker`, for any number of runs on the events of one organization. -/

namespace IbexHarness.Capture

open Lib Function

inductive Mode where
  | none
  | metadataOnly
  | redacted
  | full

abbrev Payload := List (Text × Json)

def stripKeys : List Text := ["raw".toList, "content".toList, "prompt".toList]

def filtered (payload : Payload) : Payload := payload.filter fun f => f.1 ∉ stripKeys

inductive Kind where
  | redacted
  | full
deriving DecidableEq

/-- What stands for the event in a key; without an event id it is a new UUID, which no event id is. -/
inductive ObjectID where
  | event (eventID : Text)
  | uuid (u : Uuid)
deriving DecidableEq

structure Uri where
  kind : Kind
  objectID : ObjectID
deriving DecidableEq

structure CaptureJob where
  eventID : Option Text
  payload : Payload

structure EventRow where
  data : Payload
  archivedTo : Option Uri

/-- What the transaction has written: the row it has locked and the new values of its columns. -/
structure Draft (m : Nat) where
  row : Option (Fin m)
  data : Option Payload
  archivedTo : Option Uri

def Draft.empty {m : Nat} : Draft m := ⟨none, none, none⟩

def Draft.write {m : Nat} (d : Draft m) (r : EventRow) : EventRow :=
  ⟨d.data.getD r.data, d.archivedTo <|> r.archivedTo⟩

inductive Stage (m : Nat) where
  | idle
  /-- `resolve_capture_mode` -/
  | resolve (job : CaptureJob)
  /-- `_persist_redacted`: update `data` -/
  | redact (job : CaptureJob) (eventID : Text)
  /-- `_put_archive_blob` -/
  | upload (job : CaptureJob) (kind : Kind) (draft : Draft m)
  /-- `_set_archived_to` -/
  | archive (eventID : Text) (uri : Uri) (draft : Draft m)
  | commit (uploaded : Option Uri) (draft : Draft m)
  /-- `_compensate_upload` after `_set_archived_to` failed, before the rollback -/
  | undo (uri : Uri)
  /-- `_compensate_upload` in `_run`, after the rollback -/
  | compensate (uri : Uri)
  | done

def Stage.uploaded {m : Nat} : Stage m → Option Uri
  | .archive _ uri _ => some uri
  | .commit uploaded _ => uploaded
  | _ => none

def Stage.deleting {m : Nat} : Stage m → Option Uri
  | .undo uri | .compensate uri => some uri
  | _ => none

/-- The first `m` event ids, of which some have a row, and `n` runs. -/
structure World (m n : Nat) where
  events : RowStore (Fin m) (Option EventRow) (Fin n)
  objects : Uri → Option Payload
  runs : Fin n → Stage m

/-- What the object store answers to a PUT; `unconfigured` is an error that names `S3_ENDPOINT` or `MASTER_KEY`. -/
inductive PutOutcome where
  | stored (u : Uuid)
  | unconfigured
  | failed

inductive Action (m n : Nat) where
  | begin (r : Fin n) (job : CaptureJob)
  | resolve (r : Fin n) (mode : Mode)
  | put (r : Fin n) (outcome : PutOutcome)
  /-- the next statement of the run -/
  | advance (r : Fin n)
  /-- the next statement of the run raises a database error -/
  | error (r : Fin n)
  /-- the delete of `_compensate_upload`, and whether it succeeds -/
  | delete (r : Fin n) (ok : Bool)
  | crash (r : Fin n)
  /-- a new event -/
  | record (k : Fin m) (data : Payload)

variable {m n : Nat}

def applyMode (job : CaptureJob) : Mode → Stage m
  | .none | .metadataOnly => .commit none .empty
  | .redacted => job.eventID.elim (.commit none .empty) (.redact job)
  | .full => if job.payload.isEmpty then .commit none .empty else .upload job .full .empty

def CaptureJob.uri (job : CaptureJob) (kind : Kind) (u : Uuid) : Uri := ⟨kind, job.eventID.elim (.uuid u) .event⟩

def CaptureJob.body (job : CaptureJob) : Kind → Payload
  | .redacted => filtered job.payload
  | .full => job.payload

namespace World

def setRun (w : World m n) (r : Fin n) (s : Stage m) : World m n := { w with runs := update w.runs r s }

def rollback (w : World m n) (r : Fin n) (s : Stage m) : World m n :=
  { w with events := w.events.rollback r }.setRun r s

/-- An UPDATE of the row `k`, if it is there: it waits for the row's lock. -/
def updateRow (w : World m n) (r : Fin n) (k : Fin m) (s : Stage m) : Option (World m n) :=
  (w.events.acquire r k).map fun events => { w with events := events }.setRun r s

def persistRedacted (cast : Text → Option (Fin m)) (w : World m n) (r : Fin n) (job : CaptureJob) (eventID : Text) :
    Option (World m n) :=
  (cast eventID).bind fun k =>
    match w.events.rows k with
    | none => some (w.setRun r (.upload job .redacted .empty))
    | some _ => w.updateRow r k (.upload job .redacted ⟨some k, some (filtered job.payload), none⟩)

def putArchiveBlob (w : World m n) (r : Fin n) (job : CaptureJob) (kind : Kind) (draft : Draft m) :
    PutOutcome → World m n
  | .stored u =>
    let uri := job.uri kind u
    let w := { w with objects := update w.objects uri (some (job.body kind)) }
    match job.eventID with
    | none => w.setRun r (.commit (some uri) draft)
    | some eventID => w.setRun r (.archive eventID uri draft)
  | .unconfigured => if kind = .redacted then w.setRun r (.commit none draft) else w.rollback r .done
  | .failed => w.rollback r .done

def setArchivedTo (cast : Text → Option (Fin m)) (w : World m n) (r : Fin n) (eventID : Text) (uri : Uri)
    (draft : Draft m) : Option (World m n) :=
  (cast eventID).bind fun k =>
    match w.events.rows k with
    | none => some (w.setRun r (.undo uri))
    | some _ => w.updateRow r k (.commit (some uri) { draft with row := some k, archivedTo := some uri })

def commit (w : World m n) (r : Fin n) (draft : Draft m) : World m n :=
  match draft.row with
  | none => w.rollback r .done
  | some k => { w with events := w.events.commit r k ((w.events.rows k).map draft.write) }.setRun r .done

/-- A database error: what is uploaded is deleted before the rollback or after it. -/
def error (w : World m n) (r : Fin n) : Option (World m n) :=
  match w.runs r with
  | .resolve _ | .redact _ _ => some (w.rollback r .done)
  | .archive _ uri _ => some (w.setRun r (.undo uri))
  | .commit uploaded _ => some (w.rollback r (uploaded.elim .done .compensate))
  | _ => none

def deleteUri (w : World m n) (uri : Uri) (ok : Bool) : World m n :=
  if ok then { w with objects := update w.objects uri none } else w

def step (cast : Text → Option (Fin m)) (w : World m n) : Action m n → Option (World m n)
  | .begin r job =>
    match w.runs r with
    | .idle => some (w.setRun r (.resolve job))
    | _ => none
  | .resolve r mode =>
    match w.runs r with
    | .resolve job => some (w.setRun r (applyMode job mode))
    | _ => none
  | .put r outcome =>
    match w.runs r with
    | .upload job kind draft => some (w.putArchiveBlob r job kind draft outcome)
    | _ => none
  | .advance r =>
    match w.runs r with
    | .redact job eventID => w.persistRedacted cast r job eventID
    | .archive eventID uri draft => w.setArchivedTo cast r eventID uri draft
    | .commit _ draft => some (w.commit r draft)
    | _ => none
  | .error r => w.error r
  | .delete r ok =>
    match w.runs r with
    | .undo uri | .compensate uri => some ((w.deleteUri uri ok).rollback r .done)
    | _ => none
  | .crash r =>
    match w.runs r with
    | .idle => none
    | _ => some (w.rollback r .done)
  | .record k data =>
    match w.events.rows k with
    | none => some { w with events := { w.events with rows := update w.events.rows k (some ⟨data, none⟩) } }
    | some _ => none

def archivedTo (w : World m n) (k : Fin m) : Option Uri := (w.events.rows k).bind EventRow.archivedTo

end World

/-- Before the first run every reference is good. `cast` is `CAST(:event_id AS bigint)`. -/
def machine (cast : Text → Option (Fin m)) (n : Nat) : Machine (World m n) (Action m n) where
  init w := (∀ r, w.runs r = .idle) ∧ ∀ k uri, w.archivedTo k = some uri → w.objects uri ≠ none
  step := World.step cast

/-! ## Runs that do not share an object when one of them fails -/

namespace World

def spared (w : World m n) (r : Fin n) (uri : Uri) : Bool :=
  decide (∀ k, w.archivedTo k ≠ some uri) && decide (∀ r', r' ≠ r → (w.runs r').uploaded ≠ some uri)

/-- When a run fails after its upload, no committed row and no other run that is still to commit has its object; and no
run uploads an object that another one is about to delete. -/
def unshared (cast : Text → Option (Fin m)) (w : World m n) : Action m n → Bool
  | .error r => (w.runs r).uploaded.all (w.spared r)
  | .advance r =>
    match w.runs r with
    | .archive eventID uri _ => (cast eventID).any (fun k => (w.events.rows k).isSome) || w.spared r uri
    | _ => true
  | .put r (.stored u) =>
    match w.runs r with
    | .upload job kind _ => decide (∀ r', (w.runs r').deleting ≠ some (job.uri kind u))
    | _ => true
  | _ => true

end World

end IbexHarness.Capture
