import IbexHarness.Lib.Machine
import IbexHarness.Lib.Table

/-! `Resolve`, `RunCheckpoint` and `AppendCheckpoint` for the chat turns of one session, one after another. -/

namespace IbexHarness.Turns

open Lib

variable {π : Type}

/-- `CheckpointParams` but for the turn index; `payload` are the columns that are stored as they are. -/
structure CheckpointParams (π : Type) where
  requestID : Nat
  inputTokens : Int
  outputTokens : Int
  latencyMs : Int
  isStreaming : Bool
  isComplete : Bool
  payload : π

structure Checkpoint (π : Type) where
  id : Nat
  turnIndex : Nat
  params : CheckpointParams π

instance : Keyed (Checkpoint π) Nat Nat where
  pk := Checkpoint.id
  uk := Checkpoint.turnIndex

structure Session where
  turnCount : Nat
  totalInputTokens : Int
  totalOutputTokens : Int
  totalLatencyMs : Int

/-- A completed turn and what `RunCheckpoint` returned for it; none is `uuid.Nil`. -/
structure Completed where
  requestID : Nat
  checkpoint : Option Nat
deriving DecidableEq

structure World (π : Type) where
  session : Option Session
  checkpoints : Table (Checkpoint π)
  nextID : Nat
  -- the turn counter of the cache entry
  cache : Option Nat
  -- the index of the turn in progress
  turn : Option Nat
  completed : List Completed

def World.init : World π := ⟨none, .empty, 0, none, none, []⟩

def CheckpointParams.wantCheckpoint (p : CheckpointParams π) : Bool := p.isComplete || p.isStreaming

/-! ## The store -/

inductive AppendError where
  | invalidStats
  | outOfRange
  | duplicateTurn
  | notFound

def CheckpointParams.validStats (p : CheckpointParams π) : Bool :=
  0 ≤ p.inputTokens && 0 ≤ p.outputTokens && 0 ≤ p.latencyMs

/-- The columns of `checkpoints` are `INTEGER`. -/
def CheckpointParams.fits (p : CheckpointParams π) (turnIndex : Nat) : Bool :=
  p.inputTokens < 2 ^ 31 && p.outputTokens < 2 ^ 31 && p.latencyMs < 2 ^ 31 && turnIndex < 2 ^ 31

def Session.bumpStats (s : Session) (p : CheckpointParams π) : Session :=
  ⟨s.turnCount + 1, s.totalInputTokens + p.inputTokens, s.totalOutputTokens + p.outputTokens,
    s.totalLatencyMs + p.latencyMs⟩

/-- `turn_count` is `INTEGER`, and the totals are `BIGINT`. -/
def Session.fits (s : Session) : Bool :=
  s.turnCount < 2 ^ 31 && s.totalInputTokens < 2 ^ 63 && s.totalOutputTokens < 2 ^ 63 && s.totalLatencyMs < 2 ^ 63

namespace World

def appendCheckpoint (w : World π) (p : CheckpointParams π) (turnIndex : Nat) : Except AppendError (World π × Nat) :=
  if !p.validStats then .error .invalidStats
  else if !p.fits turnIndex then .error .outOfRange
  else match w.checkpoints.insert? ⟨w.nextID, turnIndex, p⟩ with
    | none => .error .duplicateTurn
    | some checkpoints =>
      match w.session with
      | none => .error .notFound
      | some s =>
        let w' := { w with session := some (s.bumpStats p), checkpoints, nextID := w.nextID + 1 }
        if (s.bumpStats p).fits then .ok (w', w.nextID) else .error .outOfRange

def getOrCreate (w : World π) : World π × Session :=
  match w.session with
  | some s => (w, s)
  | none => ({ w with session := some ⟨0, 0, 0, 0⟩ }, ⟨0, 0, 0, 0⟩)

/-! ## The proxy -/

def resolve (w : World π) : World π :=
  match w.cache with
  | some count => { w with cache := some (count + 1), turn := some count }
  | none =>
    let (w, s) := w.getOrCreate
    { w with cache := some (s.turnCount + 1), turn := some s.turnCount }

def retryCheckpoint (w : World π) (p : CheckpointParams π) : World π × Option Nat :=
  let (w, s) := { w with cache := none }.getOrCreate
  match w.appendCheckpoint p s.turnCount with
  | .error _ => (w, none)
  | .ok (w, id) => ({ w with cache := some (s.turnCount + 1) }, some id)

def runCheckpoint (w : World π) (p : CheckpointParams π) (turnIndex : Nat) : World π × Option Nat :=
  match w.appendCheckpoint p turnIndex with
  | .ok (w, id) => ({ w with cache := some (turnIndex + 1) }, some id)
  | .error .duplicateTurn => w.retryCheckpoint p
  | .error _ => (w, none)

end World

/-! ## The machine -/

inductive Action (π : Type) where
  | resolve
  /-- the turn ends with an outcome, for which a checkpoint may be wanted -/
  | finish (p : CheckpointParams π)
  /-- the turn ends without one -/
  | abort
  | loseCache

namespace World

def finish (w : World π) (p : CheckpointParams π) (turnIndex : Nat) : World π :=
  if p.wantCheckpoint then
    let (w', id) := w.runCheckpoint p turnIndex
    { w' with turn := none, completed := ⟨p.requestID, id⟩ :: w'.completed }
  else { w with turn := none }

def step (w : World π) : Action π → Option (World π)
  | .resolve => if w.turn.isNone then some w.resolve else none
  | .finish p => w.turn.map (w.finish p)
  | .abort => if w.turn.isNone then none else some { w with turn := none }
  | .loseCache => some { w with cache := none }

/-- The row that `RunCheckpoint` returned is there and is the turn's. -/
def stored (w : World π) (c : Completed) : Bool :=
  w.checkpoints.rows.any fun r => r.params.requestID = c.requestID && c.checkpoint = some r.id

def turnCount (w : World π) : Nat := (w.session.map Session.turnCount).getD 0

/-- When a turn misses the cache, `turn_count` is above the index of every checkpoint: no turn that failed has left a
gap below them. And the token counts and the latency of a turn are not negative, and its numbers fit their columns. -/
def gapless (w : World π) : Action π → Bool
  | .resolve => w.cache.isSome || w.checkpoints.rows.all fun r => r.turnIndex < w.turnCount
  | .finish p => p.validStats && w.turn.all p.fits && w.session.all fun s => (s.bumpStats p).fits
  | .abort | .loseCache => true

end World

def machine (π : Type) : Machine (World π) (Action π) where
  init w := w = .init
  step := World.step

end IbexHarness.Turns
