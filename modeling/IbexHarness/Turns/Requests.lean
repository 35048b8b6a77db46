import IbexHarness.Extraction.Batch
import IbexHarness.Turns.Lifecycle

/-! The requests of a session interleave; the turn is appended to the extraction buffer before the checkpoint. -/

namespace IbexHarness.Turns.Requests

open Lib

variable {π : Type}

inductive Stage (π : Type) where
  /-- `Cache.Get` -/
  | lookup
  /-- `GetOrCreate` -/
  | create
  /-- `Cache.Set` of the next turn -/
  | reserve
  /-- the provider call; the session is durable unless the store has failed -/
  | provider (durable : Bool)
  /-- `flushBuffer` -/
  | flush (durable : Bool) (lastUser completion : Text) (p : CheckpointParams π)
  /-- `AppendCheckpoint` -/
  | checkpoint (p : CheckpointParams π)
  /-- `Cache.Invalidate` of `retryCheckpoint` -/
  | invalidate (p : CheckpointParams π)
  | retryCreate (p : CheckpointParams π)
  | retryAppend (p : CheckpointParams π) (turnIndex : Nat)
  /-- `Cache.Set` after a checkpoint -/
  | set (turnIndex : Nat)
  | done

/-- `turnIndex` is that of `Resolved`, none before it is read and after a provider failure. -/
structure Request (π : Type) where
  turnIndex : Option Nat
  stage : Stage π

structure World (π : Type) where
  /-- the session row, its checkpoints and the cache entry -/
  store : Turns.World π
  requests : List (Request π)
  /-- the turns appended to the extraction buffer -/
  buffered : List Extraction.Turn

inductive Action (π : Type) where
  | begin
  /-- the next step of a request, but for the provider call -/
  | advance (r : Nat)
  | complete (r : Nat) (lastUser completion : Text) (p : CheckpointParams π)
  | providerFails (r : Nat)
  | storeFails (r : Nat)
  | loseCache

namespace World

variable (w : World π)

def setRequest (r : Nat) (q : Request π) : World π := { w with requests := w.requests.set r q }

def advance (r : Nat) : Option (World π) :=
  match w.requests[r]? with
  | none => none
  | some q =>
    match q.stage with
    | .lookup =>
      match w.store.cache with
      | some count => some (w.setRequest r ⟨some count, .reserve⟩)
      | none => some (w.setRequest r ⟨none, .create⟩)
    | .create =>
      let (store, s) := w.store.getOrCreate
      some ({ w with store }.setRequest r ⟨some s.turnCount, .reserve⟩)
    | .reserve =>
      let store := { w.store with cache := q.turnIndex.map (· + 1) }
      some ({ w with store }.setRequest r { q with stage := .provider true })
    | .flush durable lastUser completion p =>
      let turns := Extraction.turnsFromChat (q.turnIndex.getD 0) lastUser completion
      some ({ w with buffered := w.buffered ++ turns }.setRequest r
        { q with stage := if durable then .checkpoint p else .done })
    | .checkpoint p =>
      match w.store.appendCheckpoint p (q.turnIndex.getD 0) with
      | .ok (store, _) => some ({ w with store }.setRequest r { q with stage := .set (q.turnIndex.getD 0) })
      | .error .duplicateTurn => some (w.setRequest r { q with stage := .invalidate p })
      | .error _ => some (w.setRequest r { q with stage := .done })
    | .invalidate p =>
      some ({ w with store := { w.store with cache := none } }.setRequest r { q with stage := .retryCreate p })
    | .retryCreate p =>
      let (store, s) := w.store.getOrCreate
      some ({ w with store }.setRequest r { q with stage := .retryAppend p s.turnCount })
    | .retryAppend p turnIndex =>
      match w.store.appendCheckpoint p turnIndex with
      | .ok (store, _) => some ({ w with store }.setRequest r { q with stage := .set turnIndex })
      | .error _ => some (w.setRequest r { q with stage := .done })
    | .set turnIndex =>
      some ({ w with store := { w.store with cache := some (turnIndex + 1) } }.setRequest r { q with stage := .done })
    | .provider _ | .done => none

/-- A turn that is neither complete nor streamed is neither buffered nor stored. -/
def complete (r : Nat) (lastUser completion : Text) (p : CheckpointParams π) : Option (World π) :=
  match w.requests[r]? with
  | some ⟨turnIndex, .provider durable⟩ =>
    if p.wantCheckpoint then some (w.setRequest r ⟨turnIndex, .flush durable lastUser completion p⟩)
    else some (w.setRequest r ⟨none, .done⟩)
  | _ => none

/-- Without a session a request goes on with the zero index; a checkpoint that fails is logged. -/
def storeFails (r : Nat) : Option (World π) :=
  match w.requests[r]? with
  | some ⟨_, .create⟩ => some (w.setRequest r ⟨some 0, .provider false⟩)
  | some ⟨turnIndex, .checkpoint _⟩ | some ⟨turnIndex, .retryCreate _⟩ | some ⟨turnIndex, .retryAppend _ _⟩ =>
    some (w.setRequest r ⟨turnIndex, .done⟩)
  | _ => none

def step : Action π → Option (World π)
  | .begin => some { w with requests := w.requests ++ [⟨none, .lookup⟩] }
  | .advance r => w.advance r
  | .complete r lastUser completion p => w.complete r lastUser completion p
  | .providerFails r =>
    match w.requests[r]? with
    | some ⟨_, .provider _⟩ => some (w.setRequest r ⟨none, .done⟩)
    | _ => none
  | .storeFails r => w.storeFails r
  | .loseCache => some { w with store := { w.store with cache := none } }

def taken : List Nat := w.requests.filterMap Request.turnIndex

def reserving (q : Request π) : Bool :=
  match q.stage with
  | .reserve => true
  | _ => false

/-- No request reads a counter before another has set the one it read; the number of stored turns is above every index
taken when it is read; a checkpoint sets the counter above every index taken; the store does not fail while one is
taken. -/
def orderly : Action π → Bool
  | .advance r =>
    match (w.requests[r]?).map Request.stage with
    | some .lookup => !w.requests.any reserving
    | some .create => !w.requests.any reserving && w.taken.all (· < w.store.turnCount)
    | some (.set turnIndex) => w.taken.all (· ≤ turnIndex)
    | _ => true
  | .storeFails r =>
    match (w.requests[r]?).map Request.stage with
    | some .create => w.taken.isEmpty
    | _ => true
  | _ => true

end World

def machine (π : Type) : Machine (World π) (Action π) where
  init w := w = ⟨.init, [], []⟩
  step := World.step

end IbexHarness.Turns.Requests
