import IbexHarness.Lib.Liveness
import Mathlib.Algebra.BigOperators.Fin
import Mathlib.Algebra.Order.BigOperators.Group.Finset

/-! `terminateEnqueueFlight.Do` of `services/proxy/internal/http/session_terminate.go`. -/

namespace IbexHarness.Terminate.Flight

open Lib Function

inductive Phase (n : Nat) where
  /-- before `f.mu.Lock()` -/
  | loop
  /-- in `wg.Wait()`, for the group of another call -/
  | wait (owner : Fin n)
  | installed
  | running
  /-- before `wg.Done()` -/
  | ended (panics : Bool)
  /-- before the entry is deleted -/
  | released (panics : Bool)
  | returned (panics : Bool)
deriving DecidableEq

structure World (κ : Type) (n : Nat) where
  m : κ → Option (Fin n)
  /-- the counter of the group that a call makes -/
  wg : Fin n → Nat
  phase : Fin n → Phase n
  /-- how often the function of a call was started -/
  runs : Fin n → Nat
  /-- who deleted an entry, and whose it was -/
  deleted : List (Fin n × Option (Fin n))

inductive Action (n : Nat) where
  | advance (i : Fin n)
  /-- the function returns or panics -/
  | finish (i : Fin n) (panics : Bool)

def Action.call {n : Nat} : Action n → Fin n
  | .advance i | .finish i _ => i

variable {κ : Type} {n : Nat} {keys : Fin n → κ} {w w' : World κ n} {a : Action n} {i j k : Fin n}

def World.setPhase (w : World κ n) (i : Fin n) (p : Phase n) : World κ n := { w with phase := update w.phase i p }

/-- The sections under the mutex are one step each. -/
def World.advance [DecidableEq κ] (keys : Fin n → κ) (w : World κ n) (i : Fin n) : Option (World κ n) :=
  match w.phase i with
  | .loop =>
    match w.m (keys i) with
    | some owner => some (w.setPhase i (.wait owner))
    | none => some { w.setPhase i .installed with m := update w.m (keys i) (some i), wg := update w.wg i 1 }
  | .wait owner => if w.wg owner = 0 then some (w.setPhase i .loop) else none
  | .installed => some { w.setPhase i .running with runs := update w.runs i (w.runs i + 1) }
  | .ended panics => some { w.setPhase i (.released panics) with wg := update w.wg i (w.wg i - 1) }
  | .released panics => some { w.setPhase i (.returned panics) with
      m := update w.m (keys i) none, deleted := (i, w.m (keys i)) :: w.deleted }
  | .running | .returned _ => none

def machine [DecidableEq κ] (keys : Fin n → κ) : Machine (World κ n) (Action n) where
  init w := w = ⟨fun _ => none, fun _ => 0, fun _ => .loop, fun _ => 0, []⟩
  step w
    | .advance i => w.advance keys i
    | .finish i panics => if w.phase i = .running then some (w.setPhase i (.ended panics)) else none

/-! ## Exclusion -/

namespace Phase

@[grind =]
def owns : Phase n → Bool
  | .installed | .running | .ended _ | .released _ => true
  | .loop | .wait _ | .returned _ => false

@[grind =]
def counter : Phase n → Nat
  | .installed | .running | .ended _ => 1
  | .loop | .wait _ | .released _ | .returned _ => 0

@[grind =]
def starts : Phase n → Nat
  | .loop | .wait _ | .installed => 0
  | .running | .ended _ | .released _ | .returned _ => 1

def rank : Phase n → Nat
  | .loop | .wait _ => 5
  | .installed => 4
  | .running => 3
  | .ended _ => 2
  | .released _ => 1
  | .returned _ => 0

def waits : Phase n → Bool
  | .wait _ => true
  | _ => false

theorem counter_of_not_owns {p : Phase n} (h : p.owns = false) : p.counter = 0 := by
  cases p <;> simp_all [owns, counter]

end Phase

/-- An entry stands for the call that installed it, from there to its deletion. -/
structure Inv (keys : Fin n → κ) (w : World κ n) : Prop where
  entry : ∀ k i, w.m k = some i ↔ keys i = k ∧ (w.phase i).owns = true
  wg : ∀ i, w.wg i = (w.phase i).counter
  wait : ∀ i j, w.phase i = .wait j → keys j = keys i
  runs : ∀ i, w.runs i = (w.phase i).starts
  deleted : ∀ d ∈ w.deleted, d.2 = some d.1

/-- A step takes a call one phase on, or between the head of its loop and `Wait`. -/
def Moves (keys : Fin n → κ) (w : World κ n) (i : Fin n) (w' : World κ n) : Prop :=
  ∃ p, w'.phase = update w.phase i p ∧ (p.rank < (w.phase i).rank ∨ w'.m = w.m ∧ p.rank = (w.phase i).rank ∧
    (w.phase i = .loop ∧ w.m (keys i) ≠ none ∨ (w.phase i).waits = true ∧ p = .loop))

variable [DecidableEq κ]

theorem Inv.step (h : Inv keys w) (hs : (machine keys).step w a = some w') : Moves keys w a.call w' ∧ Inv keys w' := by
  obtain ⟨hentry, hwg, hwait, hruns, hdeleted⟩ := h
  cases a with
  | advance i =>
    simp only [machine, World.advance] at hs
    cases hi : w.phase i with
    | loop =>
      cases hm : w.m (keys i) with
      | none =>
        simp only [hi, hm, Option.some.injEq] at hs
        subst hs
        refine ⟨⟨_, rfl, .inl (by simp [Action.call, hi, Phase.rank])⟩, ?_⟩
        constructor <;> dsimp only [World.setPhase] <;> grind [update_apply]
      | some owner =>
        simp only [hi, hm, Option.some.injEq] at hs
        subst hs
        refine ⟨⟨_, rfl, .inr ⟨rfl, by simp [Action.call, hi, Phase.rank], .inl ⟨hi, by simp [Action.call, hm]⟩⟩⟩, ?_⟩
        constructor <;> dsimp only [World.setPhase] <;> grind [update_apply]
    | wait owner =>
      simp only [hi] at hs
      obtain ⟨-, rfl⟩ := of_ite_some hs
      refine ⟨⟨_, rfl, .inr ⟨rfl, by simp [Action.call, hi, Phase.rank],
        .inr ⟨by simp [Action.call, hi, Phase.waits], rfl⟩⟩⟩, ?_⟩
      constructor <;> dsimp only [World.setPhase] <;> grind [update_apply]
    | released panics =>
      have hmine : w.m (keys i) = some i := (hentry _ _).mpr ⟨rfl, by rw [hi]; rfl⟩
      have hothers (j : Fin n) := (hentry (keys i) j).mpr
      simp only [hi, Option.some.injEq] at hs
      subst hs
      refine ⟨⟨_, rfl, .inl (by simp [Action.call, hi, Phase.rank])⟩, ?_⟩
      constructor <;> dsimp only [World.setPhase] <;> grind [update_apply]
    | installed | ended =>
      simp only [hi, Option.some.injEq] at hs
      subst hs
      refine ⟨⟨_, rfl, .inl (by simp [Action.call, hi, Phase.rank])⟩, ?_⟩
      constructor <;> dsimp only [World.setPhase] <;> grind [update_apply]
    | running | returned => simp [hi] at hs
  | finish i panics =>
    obtain ⟨hi, rfl⟩ := of_ite_some hs
    refine ⟨⟨_, rfl, .inl (by simp [Action.call, hi, Phase.rank])⟩, ?_⟩
    constructor <;> dsimp only [World.setPhase] <;> grind [update_apply]

theorem inv_of_reachable (h : (machine keys).Reachable w) : Inv keys w :=
  h.invariant (by rintro _ rfl; constructor <;> simp [Phase.owns, Phase.counter, Phase.starts])
    fun _ _ _ h hs => (h.step hs).2

/-! ## Progress -/

def World.rank (keys : Fin n → κ) (i : Fin n) (w : World κ n) : Nat :=
  2 * ∑ j, (w.phase j).rank + if w.m (keys i) = none ∧ (w.phase i).waits = true then 1 else 0

/-- Who brings the call `i` nearer to its end: the owner of the entry, or `i` itself. -/
def Helps (keys : Fin n → κ) (i j : Fin n) (w : World κ n) : Prop :=
  w.m (keys i) = some j ∨ w.m (keys i) = none ∧ j = i

theorem Inv.enabled (h : Inv keys w) (hi : ∀ panics, w.phase i ≠ .returned panics) (hj : Helps keys i j w) :
    ∃ a : Action n, a.call = j ∧ (machine keys).step w a ≠ none := by
  by_cases hrun : w.phase j = .running
  · exact ⟨.finish j false, rfl, by simp [machine, hrun]⟩
  refine ⟨.advance j, rfl, ?_⟩
  rcases hj with hm | ⟨hm, rfl⟩
  · have howns := ((h.entry _ _).mp hm).2
    cases hp : w.phase j <;> simp_all [machine, World.advance, Phase.owns]
  · have howner := (h.entry (keys j) j).mpr
    cases hp : w.phase j with
    | wait o =>
      have hnot : (w.phase o).owns = false := by
        rw [Bool.eq_false_iff]
        intro howns
        simpa [hm] using (h.entry (keys j) o).mpr ⟨h.wait j o hp, howns⟩
      simp [machine, World.advance, hp, h.wg, Phase.counter_of_not_owns hnot]
    | _ => simp_all [machine, World.advance, Phase.owns]

theorem sum_rank_update_lt {f : Fin n → Phase n} {p : Phase n} (h : p.rank < (f k).rank) :
    ∑ j, (update f k p j).rank < ∑ j, (f j).rank := by
  refine Finset.sum_lt_sum (fun j _ => ?_) ⟨k, Finset.mem_univ k, by simpa using h⟩
  rcases eq_or_ne j k with rfl | hj
  · simpa using h.le
  · simp [hj]

theorem sum_rank_update_eq {f : Fin n → Phase n} {p : Phase n} (h : p.rank = (f k).rank) :
    ∑ j, (update f k p j).rank = ∑ j, (f j).rank := by
  refine Finset.sum_congr rfl fun j _ => ?_
  rcases eq_or_ne j k with rfl | hj
  · simpa using h
  · simp [hj]

omit [DecidableEq κ] in
theorem Inv.rank (h : Inv keys w) (hj : Helps keys i j w) (hs : Moves keys w k w') :
    w'.rank keys i < w.rank keys i ∨ w'.rank keys i = w.rank keys i ∧ Helps keys i j w' ∧ k ≠ j := by
  obtain ⟨p, hphase, hlt | ⟨hm, heq, hloop⟩⟩ := hs
  · have hsum := sum_rank_update_lt hlt
    left
    simp only [World.rank, hphase]
    split <;> omega
  · have hsum := sum_rank_update_eq heq
    have hhelps : Helps keys i j w' := by rwa [Helps, hm]
    -- the owner neither stands at the head of its loop nor waits
    have howner (hmj : w.m (keys i) = some j) : k ≠ j := by
      rintro rfl
      have howns := ((h.entry _ _).mp hmj).2
      rcases hloop with ⟨hk, -⟩ | ⟨hk, -⟩ <;> cases hp : w.phase k <;> simp_all [Phase.owns, Phase.waits]
    rcases hj with hmj | ⟨hmi, rfl⟩
    · exact .inr ⟨by simp [World.rank, hphase, hsum, hm, hmj], hhelps, howner hmj⟩
    · rcases eq_or_ne k j with rfl | hk
      · rcases hloop with ⟨-, hentry⟩ | ⟨hwaits, rfl⟩
        · exact absurd hmi hentry
        · left
          have hloop : (Phase.loop : Phase n).waits = false := rfl
          simp [World.rank, hphase, hsum, hm, hmi, hwaits, hloop]
      · exact .inr ⟨by simp [World.rank, hphase, hsum, hm, hk.symm], hhelps, hk⟩

/-- A fair scheduler moves a call that can move, and lets its function end. -/
theorem returns (t : (machine keys).Trace) (hfair : ∀ i, t.Fair fun a => a.call = i) (i : Fin n) :
    ∃ m panics, (t.state m).phase i = .returned panics := by
  by_contra hnever
  simp only [not_exists] at hnever
  have hhelp (m : Nat) : ∃ j, Helps keys i j (t.state m) := by
    cases hm : (t.state m).m (keys i) with
    | none => exact ⟨i, .inr ⟨hm, rfl⟩⟩
    | some j => exact ⟨j, .inl hm⟩
  have hinv (m : Nat) := inv_of_reachable (t.reachable m)
  obtain ⟨_, -, hq⟩ := Machine.Trace.eventually_from (P := fun _ => True) (Q := fun _ => False) (H := Helps keys i)
    (World.rank keys i) (n := 0) hfair (fun m _ _ => hhelp m) (fun m j _ _ hj => (hinv m).enabled (hnever m) hj)
    (fun m a j _ _ hj hact => .inr ⟨trivial, (hinv m).rank hj ((hinv m).step (t.step m a hact)).1⟩) trivial
  exact hq

/-- For any number of calls of `Do` on any keys. -/
theorem flight_exclusive (keys : Fin n → κ) : (∀ w, (machine keys).Reachable w →
      (∀ i j, keys i = keys j → w.phase i = .running → w.phase j = .running → i = j) ∧
      (∀ i, w.runs i ≤ 1 ∧ ∀ panics, w.phase i = .returned panics → w.runs i = 1) ∧
      ∀ d ∈ w.deleted, d.2 = some d.1) ∧
    ∀ t : (machine keys).Trace, (∀ i, t.Fair fun a => a.call = i) →
      ∀ i, ∃ m panics, (t.state m).phase i = .returned panics := by
  refine ⟨fun w hw => ?_, returns⟩
  have h := inv_of_reachable hw
  refine ⟨fun i j hk hi hj => ?_, fun i => ⟨?_, fun panics hi => ?_⟩, h.deleted⟩
  · have hmine := (h.entry _ _).mpr ⟨hk, by rw [hi]; rfl⟩
    rw [(h.entry _ _).mpr ⟨rfl, by rw [hj]; rfl⟩] at hmine
    exact (Option.some.inj hmine).symm
  · rw [h.runs]
    cases w.phase i <;> simp [Phase.starts]
  · rw [h.runs, hi]
    rfl

end IbexHarness.Terminate.Flight
