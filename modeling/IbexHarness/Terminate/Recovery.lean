import IbexHarness.ExtractionBuffer.Buffer
import IbexHarness.Lib.Liveness

/-! `runAfterTerminateEnqueue` of `services/proxy/internal/http/session_terminate.go` and `enqueue_extraction` of
`services/worker/app/enqueue_http.py`. -/

namespace IbexHarness.Terminate

open Lib ExtractionBuffer

structure Row (η : Type) where
  requestHash : η
  finalized : Bool
deriving DecidableEq

inductive Claim where
  | owned
  | replay
  | conflict
  | inProgress

def claim {η : Type} [DecidableEq η] (row : Option (Row η)) (requestHash : η) : Claim :=
  match row with
  | none => .owned
  | some r => if r.requestHash ≠ requestHash then .conflict else if r.finalized then .replay else .inProgress

inductive Stage where
  | peek
  /-- the worker has the request: `parse_turns`, then `_claim_or_response` -/
  | claim (turns : List Turn)
  /-- `_dispatch_extract_bounded` -/
  | dispatch (turns : List Turn)
  | finalize (turns : List Turn)
  /-- the worker has answered 202 -/
  | ack (turns : List Turn)
  | done
deriving DecidableEq

structure World (η : Type) where
  buffer : List Turn
  row : Option (Row η)
  /-- in the order of the terminate requests -/
  jobs : List Stage
  /-- the turns of the enqueues that the worker has answered with 202 -/
  accepted : List (List Turn)
  /-- how often a dispatch may still fail -/
  failures : Nat

def World.initial {η : Type} (failures : Nat) : World η := ⟨[], none, [], [], failures⟩

inductive Action where
  | append (turns : List Turn)
  | terminate
  | advance (job : Nat)
  /-- the dispatch fails; the worker releases its claim and answers 503 -/
  | fail (job : Nat)
  /-- the answer is lost, or the acknowledgement fails -/
  | lose (job : Nat)

variable {η : Type} [DecidableEq η] (fingerprint : List Turn → η)

def World.setJob (w : World η) (j : Nat) (stage : Stage) : World η := { w with jobs := w.jobs.set j stage }

def World.advance (w : World η) (j : Nat) : Stage → Option (World η)
  | .peek =>
    -- `skipped`, `empty_buffer`
    if w.buffer = [] then some (w.setJob j .done) else some (w.setJob j (.claim w.buffer))
  | .claim turns =>
    if parseTurns turns then
      match claim w.row (fingerprint turns) with
      | .owned => some { w.setJob j (.dispatch turns) with row := some ⟨fingerprint turns, false⟩ }
      | .replay => some { w.setJob j (.ack turns) with accepted := w.accepted ++ [turns] }
      | .conflict => some (w.setJob j .done)
      | .inProgress => some (w.setJob j .done)
    else some (w.setJob j .done)
  | .dispatch turns => some (w.setJob j (.finalize turns))
  | .finalize turns =>
    some { w.setJob j (.ack turns) with
      row := some ⟨fingerprint turns, true⟩
      accepted := w.accepted ++ [turns] }
  | .ack turns =>
    some { w.setJob j .done with buffer := if w.buffer = turns then [] else w.buffer }
  | .done => none

def World.fail (w : World η) (j : Nat) : Stage → Option (World η)
  | .dispatch _ =>
    if w.failures = 0 then none
    else some { w.setJob j .done with
      row := none
      failures := w.failures - 1 }
  | _ => none

def World.lose (w : World η) (j : Nat) : Stage → Option (World η)
  | .ack _ => some (w.setJob j .done)
  | _ => none

def World.append (w : World η) (turns : List Turn) : World η :=
  { w with buffer := (mergeTurns w.buffer (sanitizeTurns turns)).1 }

def machine : Machine (World η) Action where
  init w := ∃ failures, w = .initial failures
  step w
    | .append turns => some (w.append turns)
    | .terminate => some { w with jobs := w.jobs ++ [.peek] }
    | .advance j => w.jobs[j]?.bind (w.advance fingerprint j)
    | .fail j => w.jobs[j]?.bind (w.fail j)
    | .lose j => w.jobs[j]?.bind (w.lose j)

/-! ## Appends before any enqueue -/

def Stage.idle : Stage → Bool
  | .peek | .done => true
  | _ => false

/-- An append finds no ledger row and no job that has peeked, and leaves turns that the worker will parse. -/
def World.early (w : World η) : Action → Bool
  | .append turns => w.row.isNone && w.jobs.all Stage.idle && parseTurns (w.append turns).buffer
  | _ => true

end IbexHarness.Terminate
