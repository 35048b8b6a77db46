import IbexHarness.Context.Formatter
import IbexHarness.Lib.Machine

/-! `services/worker/app/extraction/batch.py` over the session row, and `TurnsFromChat` of the proxy, which numbers
the turns. -/

namespace IbexHarness.Extraction

open Lib

structure Turn where
  turnIndex : Nat
  role : Text
  content : Text
deriving DecidableEq

def turnsFromChat (turnIndex : Nat) (lastUser completion : Text) : List Turn :=
  (if lastUser ≠ [] then [⟨turnIndex * 2, "user".toList, lastUser⟩] else []) ++
    if completion ≠ [] then [⟨turnIndex * 2 + 1, "assistant".toList, completion⟩] else []

/-- The jobs of a session: lists of turns that its chat turns yield. -/
structure Jobs where
  chat : Nat → Text × Text
  turns : Nat → List Turn
  from_chat : ∀ j, ∀ t ∈ turns j, ∃ i, t ∈ turnsFromChat i (chat i).1 (chat i).2

/-! ## Batches -/

def maxTurnsPerBatch : Nat := 50

def maxBatchContentBytes : Nat := 500000

def formatTurn (t : Turn) : Text :=
  "<turn index=\"".toList ++ (Nat.repr t.turnIndex).toList ++ "\" role=\"".toList ++ Context.escapeAttr t.role ++
    "\">\n".toList ++ Context.escapeAttr t.content ++ "\n</turn>".toList

def formatBatchUserContent (turns : List Turn) : Text := List.intercalate ['\n'] (turns.map formatTurn)

def Turn.valid (t : Turn) : Bool :=
  1 ≤ t.role.length && t.role.length ≤ 32 && 1 ≤ t.content.length && t.content.length ≤ 100000

def acceptsTurns (turns : List Turn) : Bool :=
  turns.length ≤ maxTurnsPerBatch && turns.all Turn.valid && decide (turns.map Turn.turnIndex).Nodup &&
    Text.byteLength (formatBatchUserContent turns) ≤ maxBatchContentBytes

def selectUnprocessedTurns (turns : List Turn) (lastExtractedTurn : Int) : List Turn :=
  turns.filter fun t => lastExtractedTurn < t.turnIndex

variable {μ : Type}

structure TurnExtraction (μ : Type) where
  turnIndex : Nat
  memories : List μ

def exactTurnIndexes (pending : List Turn) (batch : List (TurnExtraction μ)) : Bool :=
  let expected := pending.map Turn.turnIndex
  let got := batch.map TurnExtraction.turnIndex
  decide expected.Nodup && decide got.Nodup && expected.length = got.length && expected.all (· ∈ got) &&
    got.all (· ∈ expected)

def inTurnOrder (batch : List (TurnExtraction μ)) : List (TurnExtraction μ) :=
  batch.insertionSort fun a b => a.turnIndex ≤ b.turnIndex

/-! ## The session row -/

inductive Status where
  | active
  | completed
  | abandoned
  | error
deriving DecidableEq

structure SessionRow where
  lastExtractedTurn : Int
  status : Status
  deleted : Bool
  lifecycleRevision : Nat
deriving DecidableEq

def SessionRow.default : SessionRow := ⟨0, .active, false, 1⟩

def SessionRow.updateLastExtractedTurn (r : SessionRow) (turn : Int) (expectedRevision : Nat) : Option SessionRow :=
  if r.lifecycleRevision = expectedRevision ∧ r.status = .completed ∧ r.deleted = false then
    some { r with lastExtractedTurn := max r.lastExtractedTurn turn }
  else none

/-! ## Attempts -/

inductive Result where
  | ok (memoriesWritten turnsProcessed : Nat)
  | sessionNotFound
  | sessionNotReady
  | noUnprocessedTurns
deriving DecidableEq

/-- Where an attempt is; `pending` are the turns in the user content of its provider call. -/
inductive Attempt (μ : Type) where
  | idle
  | load (job : Nat)
  | extract (job : Nat) (pending : List Turn) (revision : Nat)
  | write (job : Nat) (pending : List Turn) (revision : Nat) (written : Nat) (turn : TurnExtraction μ) (ordinal : Nat)
      (rest : List (TurnExtraction μ))
  | update (job : Nat) (pending : List Turn) (revision : Nat) (written : Nat) (turnIndex : Nat)
      (rest : List (TurnExtraction μ))
  | done (result : Result)
  | failed

/-- A turn whose memories were all written, and the turns in the user content of the provider call. -/
structure Extracted where
  content : List Turn
  turnIndex : Nat

structure Memory (μ : Type) where
  turnIndex : Nat
  ordinal : Nat
  memory : μ

structure World (μ : Type) where
  row : Option SessionRow
  attempts : Nat → Attempt μ
  memories : List (Memory μ)
  -- the jobs of which an attempt has loaded the row
  started : List Nat
  -- the jobs of which an attempt returned, not for want of a session that is ready
  finished : List Nat
  extracted : List Extracted

def World.init : World μ := ⟨some .default, fun _ => .idle, [], [], [], []⟩

namespace World

def setAttempt (w : World μ) (a : Nat) (s : Attempt μ) : World μ :=
  { w with attempts := Function.update w.attempts a s }

def load (jobs : Jobs) (w : World μ) (a job : Nat) : World μ :=
  let w := { w with started := job :: w.started }
  match w.row with
  | none => w.setAttempt a (.done .sessionNotFound)
  | some row =>
    if row.deleted || row.status ≠ .completed then w.setAttempt a (.done .sessionNotReady)
    else
      let pending := selectUnprocessedTurns (jobs.turns job) row.lastExtractedTurn
      if pending = [] then { w with finished := job :: w.finished }.setAttempt a (.done .noUnprocessedTurns)
      else if maxBatchContentBytes < Text.byteLength (formatBatchUserContent pending) then w.setAttempt a .failed
      else w.setAttempt a (.extract job pending row.lifecycleRevision)

def next (w : World μ) (a job : Nat) (pending : List Turn) (revision written : Nat) :
    List (TurnExtraction μ) → World μ
  | [] => { w with finished := job :: w.finished }.setAttempt a (.done (.ok written pending.length))
  | turn :: rest => w.setAttempt a (.write job pending revision written turn 0 rest)

def persist (w : World μ) (a job : Nat) (pending : List Turn) (revision : Nat) (batch : List (TurnExtraction μ)) :
    World μ :=
  if exactTurnIndexes pending batch then w.next a job pending revision 0 (inTurnOrder batch) else w.setAttempt a .failed

def write (w : World μ) (a job : Nat) (pending : List Turn) (revision written : Nat) (turn : TurnExtraction μ)
    (ordinal : Nat) (rest : List (TurnExtraction μ)) : World μ :=
  match turn.memories[ordinal]? with
  | some m =>
    { w with memories := ⟨turn.turnIndex, ordinal, m⟩ :: w.memories }.setAttempt a
      (.write job pending revision (written + 1) turn (ordinal + 1) rest)
  | none =>
    { w with extracted := ⟨pending, turn.turnIndex⟩ :: w.extracted }.setAttempt a
      (.update job pending revision written turn.turnIndex rest)

def update (w : World μ) (a job : Nat) (pending : List Turn) (revision written turnIndex : Nat)
    (rest : List (TurnExtraction μ)) : World μ :=
  match w.row.bind fun r => r.updateLastExtractedTurn turnIndex revision with
  | none => w.setAttempt a .failed
  | some row => { w with row := some row }.next a job pending revision written rest

end World

/-! ## The machine -/

inductive Action (μ : Type) where
  | begin (a job : Nat)
  /-- the provider call completes; none when its text is no batch -/
  | extracted (a : Nat) (batch : Option (List (TurnExtraction μ)))
  | advance (a : Nat)
  | fail (a : Nat)
  /-- the session ends, is reopened or deleted, or one of its memories is forgotten -/
  | lifecycle (status : Status) (deleted : Bool)
  | erase

def World.step (jobs : Jobs) (w : World μ) : Action μ → Option (World μ)
  | .begin a job =>
    match w.attempts a with
    | .idle => some (w.setAttempt a (if acceptsTurns (jobs.turns job) then .load job else .failed))
    | _ => none
  | .extracted a batch =>
    match w.attempts a with
    | .extract job pending revision =>
      match batch with
      | some batch => some (w.persist a job pending revision batch)
      | none => some (w.setAttempt a .failed)
    | _ => none
  | .advance a =>
    match w.attempts a with
    | .load job => some (w.load jobs a job)
    | .write job pending revision written turn ordinal rest =>
      some (w.write a job pending revision written turn ordinal rest)
    | .update job pending revision written turnIndex rest =>
      some (w.update a job pending revision written turnIndex rest)
    | .idle | .extract _ _ _ | .done _ | .failed => none
  | .fail a =>
    match w.attempts a with
    | .idle | .done _ => none
    | _ => some (w.setAttempt a .failed)
  | .lifecycle status deleted =>
    some { w with row := w.row.map fun r =>
      { r with status := status, deleted := deleted, lifecycleRevision := r.lifecycleRevision + 1 } }
  | .erase => some { w with row := none }

def machine (μ : Type) (jobs : Jobs) : Machine (World μ) (Action μ) where
  init w := w = .init
  step := World.step jobs

/-- The turn was in the user content of a completed provider call and the memories of it were written. -/
def World.hasExtracted (w : World μ) (t : Turn) : Bool :=
  w.extracted.any fun e => t ∈ e.content && e.turnIndex = t.turnIndex

/-- Jobs run in turn order: none holds turn 0, and an attempt loads the row only when the turns of every other job
started before are below all of its own. -/
def World.inOrder (jobs : Jobs) (w : World μ) : Action μ → Bool
  | .advance a =>
    match w.attempts a with
    | .load job => (jobs.turns job).all fun t =>
      0 < t.turnIndex && w.started.all fun j => j = job || (jobs.turns j).all fun t' => t'.turnIndex < t.turnIndex
    | _ => true
  | _ => true

end IbexHarness.Extraction
