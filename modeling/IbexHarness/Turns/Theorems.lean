import IbexHarness.Turns.Lemmas.Distinct

/-! Every completed turn is stored as long as `turn_count` is above the stored indexes whenever the cache is missed. -/

namespace IbexHarness.Turns

open Lib World

variable {π : Type} {w : World π}

def sampleParams (requestID : Nat) : CheckpointParams Unit := ⟨requestID, 10, 20, 5, false, true, ()⟩

end IbexHarness.Turns

/-! ## Buffered turns -/

namespace IbexHarness.Turns.Requests

open Lib

variable {π : Type} {w : World π}

/-- In a run whose steps are all `orderly`, the buffered turns have distinct indexes. -/
theorem buffered_indexes_distinct (hr : ((machine π).restrict World.orderly).Reachable w) :
    (w.buffered.map Extraction.Turn.turnIndex).Nodup :=
  (inv_of_orderly hr).nodup

def sampleParams : CheckpointParams Unit := ⟨0, 10, 20, 5, false, true, ()⟩

/-- Two requests overlap, and the later one stores its checkpoint first. -/
def orderlyActions : List (Action Unit) :=
  [.begin, .begin, .advance 0, .advance 0, .advance 0, .advance 1, .advance 1, .complete 1 ['q'] ['a'] sampleParams,
    .complete 0 ['q'] ['a'] sampleParams, .advance 1, .advance 0, .advance 1, .advance 1]

def orderlyWorld : World Unit :=
  (((machine Unit).restrict World.orderly).run ⟨.init, [], []⟩ orderlyActions).get (by decide)

theorem buffered_indexes_distinct_sample : orderlyWorld.buffered.map Extraction.Turn.turnIndex = [2, 3, 0, 1] ∧
      (orderlyWorld.buffered.map Extraction.Turn.turnIndex).Nodup :=
  ⟨by decide, buffered_indexes_distinct ⟨_, rfl, orderlyActions, (Option.some_get _).symm⟩⟩

def racingActions : List (Action Unit) :=
  [.begin, .begin, .advance 0, .advance 1, .advance 0, .advance 1, .advance 0, .advance 1,
    .complete 0 ['q'] ['a'] sampleParams, .complete 1 ['r'] ['b'] sampleParams, .advance 0, .advance 1]

def racingWorld : World Unit := ((machine Unit).run ⟨.init, [], []⟩ racingActions).get (by decide)

/-- Both turns have the index 0, and the worker refuses them. -/
theorem buffered_indexes_collide :
    (machine Unit).Reachable racingWorld ∧ racingWorld.buffered.map Extraction.Turn.turnIndex = [0, 1, 0, 1] ∧
      ¬(racingWorld.buffered.map Extraction.Turn.turnIndex).Nodup ∧
      Extraction.acceptsTurns racingWorld.buffered = false := by
  refine ⟨⟨_, rfl, racingActions, (Option.some_get _).symm⟩, ?_, ?_, ?_⟩ <;> decide +kernel

end IbexHarness.Turns.Requests
