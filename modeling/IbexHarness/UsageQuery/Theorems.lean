import IbexHarness.Lib.KeyStore
import IbexHarness.Lib.Machine
import Mathlib.Tactic.SplitIfs

/-! `_acquire_inflight` and `_release_inflight` of `services/api/app/services/usage_query.py`. -/

namespace IbexHarness.UsageQuery

section

open Lib

def maxConcurrent : Int := 4

def inflightTTL : Nat := 120 * 1000

/-- The counter, and the time at which it expires (`none` without `EXPIRE`). -/
structure Counter where
  value : Int
  expireAt : Option Nat

def Counter.alive (c : Counter) (now : Nat) : Bool := c.expireAt.all (live now)

def inflightLua (now : Nat) (key : Option Counter) : Int × Counter :=
  -- INCR keeps the time to live of a key, and creates one without
  let n := key.elim 0 Counter.value + 1
  let key : Counter := ⟨n, key.bind Counter.expireAt⟩
  let key := if n = 1 then { key with expireAt := some (now + inflightTTL) } else key
  if n > maxConcurrent then (-1, { key with value := n - 1 })
  else (n, if key.expireAt = none then { key with expireAt := some (now + inflightTTL) } else key)

def decr (key : Option Counter) : Counter := ⟨key.elim 0 Counter.value - 1, key.bind Counter.expireAt⟩

structure Query where
  id : Nat
  admittedAt : Nat
deriving DecidableEq

structure World where
  now : Nat
  key : Option Counter
  /-- admitted and not yet released -/
  inflight : List Query
  nextID : Nat

inductive Action where
  | pass (d : Nat)
  | acquire
  /-- the query ends, with or without an error -/
  | release (q : Query)

namespace World

def get (w : World) : Option Counter := w.key.filter (Counter.alive · w.now)

def acquire (w : World) : Int × World :=
  let (n, key) := inflightLua w.now w.get
  if n < 0 then (n, { w with key := some key })
  else (n, { w with key := some key, inflight := ⟨w.nextID, w.now⟩ :: w.inflight, nextID := w.nextID + 1 })

def step (w : World) : Action → Option World
  | .pass d =>
    if w.inflight.all fun q => w.now + d ≤ q.admittedAt + 120 * 1000 then some { w with now := w.now + d } else none
  | .acquire => some w.acquire.2
  | .release q =>
    if q ∈ w.inflight then some { w with key := some (decr w.get), inflight := w.inflight.erase q } else none

end World

def machine : Machine World Action where
  init w := w.key = none ∧ w.inflight = []
  step := World.step

end

/-! The counter is the number of queries in flight as long as the key does not expire under a query. -/

open Lib List Option Counter

variable {w w' : World}

def keepsCounter (w : World) : Action → Bool
  | .pass d => w.inflight.isEmpty || w.get.all (Counter.alive · (w.now + d))
  | _ => true

def World.count (w : World) : Int := w.get.elim 0 Counter.value

/-! ## The script -/

variable (now : Nat) {key : Option Counter}

theorem inflightLua_refused (h : maxConcurrent ≤ key.elim 0 Counter.value) :
    inflightLua now key = (-1, ⟨key.elim 0 Counter.value, key.bind Counter.expireAt⟩) := by
  unfold maxConcurrent at h
  have hone : key.elim 0 value + 1 ≠ 1 := by omega
  have hover : key.elim 0 value + 1 > 4 := by omega
  simp [inflightLua, maxConcurrent, hone, hover]

theorem inflightLua_admitted (h : key.elim 0 Counter.value < maxConcurrent) :
    ∃ expireAt, inflightLua now key = (key.elim 0 Counter.value + 1, ⟨key.elim 0 Counter.value + 1, expireAt⟩) ∧
      (expireAt = some (now + inflightTTL) ∨ expireAt = key.bind Counter.expireAt) := by
  unfold maxConcurrent at h
  have hunder : ¬key.elim 0 value + 1 > 4 := by omega
  simp only [inflightLua, maxConcurrent, hunder, if_false]
  split_ifs
  · exact ⟨_, rfl, .inl rfl⟩
  · exact ⟨_, rfl, .inl rfl⟩
  · exact ⟨_, rfl, .inl rfl⟩
  · exact ⟨_, rfl, .inr rfl⟩

/-! ## The key -/

theorem alive_of_get {c : Counter} (h : w.get = some c) : c.alive w.now = true := (Option.filter_eq_some_iff.mp h).2

/-- A key with the time to live of a live one, or with a new one, is live. -/
theorem filter_alive (value : Int) {expireAt : Option Nat}
    (h : expireAt = some (w.now + inflightTTL) ∨ expireAt = w.get.bind Counter.expireAt) :
    (some (⟨value, expireAt⟩ : Counter)).filter (Counter.alive · w.now) = some ⟨value, expireAt⟩ := by
  refine filter_eq_some_iff.mpr ⟨rfl, ?_⟩
  rcases h with rfl | rfl
  · simp [alive, inflightTTL]
  · cases hget : w.get with
    | none => rfl
    | some c =>
      have halive := alive_of_get hget
      exact halive

theorem count_of_expireAt {value : Int} {expireAt : Option Nat} (hkey : w'.key = some ⟨value, expireAt⟩)
    (hnow : w'.now = w.now) (h : expireAt = some (w.now + inflightTTL) ∨ expireAt = w.get.bind Counter.expireAt) :
    w'.count = value := by
  have hget : w'.get = some ⟨value, expireAt⟩ := by rw [World.get, hkey, hnow, filter_alive value h]
  rw [World.count, hget]
  rfl

structure Inv (w : World) : Prop where
  count : w.count = w.inflight.length
  le : (w.inflight.length : Int) ≤ maxConcurrent

/-- With a counter of what is in flight, a query is admitted when there is room. -/
theorem Inv.acquire_admits (h : Inv w) (hlt : (w.inflight.length : Int) < maxConcurrent) :
    0 ≤ w.acquire.1 ∧ Inv w.acquire.2 := by
  have hcount : w.get.elim 0 value = w.inflight.length := h.count
  obtain ⟨expireAt, hlua, hexp⟩ := inflightLua_admitted w.now (hcount ▸ hlt)
  have hpos : ¬w.get.elim 0 value + 1 < 0 := by omega
  simp only [World.acquire, hlua, hpos, if_false]
  refine ⟨by omega, ?_, ?_⟩
  · refine Eq.trans (count_of_expireAt (w := w) rfl rfl hexp) ?_
    simp only [length_cons]
    omega
  · simp only [length_cons]
    omega

theorem Inv.acquire_refuses (h : Inv w) (hle : maxConcurrent ≤ (w.inflight.length : Int)) : Inv w.acquire.2 := by
  have hcount : w.get.elim 0 value = w.inflight.length := h.count
  have hlua := inflightLua_refused w.now (hcount.symm ▸ hle)
  simp only [World.acquire, hlua, show (-1 : Int) < 0 by decide, if_true]
  refine ⟨?_, h.le⟩
  exact Eq.trans (count_of_expireAt (w := w) rfl rfl (.inr rfl)) hcount

theorem Inv.pass (h : Inv w) {d : Nat} (hc : keepsCounter w (.pass d) = true) : Inv { w with now := w.now + d } := by
  refine ⟨?_, h.le⟩
  rw [← h.count]
  unfold World.count
  cases hkey : w.key with
  | none => simp [World.get, hkey]
  | some c =>
    by_cases hlate : c.alive (w.now + d) = true
    · -- a key that lives later lives now
      have hnow : c.alive w.now = true := by
        unfold alive at hlate ⊢
        cases hexp : c.expireAt with
        | none => rfl
        | some e =>
          simp only [hexp, all_some, live_iff] at hlate ⊢
          omega
      simp [World.get, hkey, filter_some, hlate, hnow]
    · by_cases hnow : c.alive w.now = true
      · have hget : w.get = some c := by simp [World.get, hkey, filter_some, hnow]
        have hempty : w.inflight = [] := by simpa [keepsCounter, hget, hlate] using hc
        have hcount := h.count
        simp only [World.count, hget, elim_some, hempty, length_nil] at hcount
        simp [World.get, hkey, filter_some, hlate, hnow, hcount]
      · simp [World.get, hkey, filter_some, hlate, hnow]

theorem Inv.release (h : Inv w) {q : Query} (hq : q ∈ w.inflight) :
    Inv { w with key := some (decr w.get), inflight := w.inflight.erase q } := by
  have hlen := length_erase_of_mem hq
  have hpos := length_pos_of_mem hq
  have hcount : w.get.elim 0 value = w.inflight.length := h.count
  have hle := h.le
  refine ⟨?_, ?_⟩
  · refine Eq.trans (count_of_expireAt (w := w) rfl rfl (.inr rfl)) ?_
    simp only [hcount]
    omega
  · simp only
    omega

theorem Inv.step (h : Inv w) {a : Action} (hc : keepsCounter w a = true) (hs : w.step a = some w') : Inv w' := by
  cases a with
  | pass d =>
    obtain ⟨-, rfl⟩ := of_ite_some hs
    exact h.pass hc
  | acquire =>
    cases hs
    by_cases hlt : (w.inflight.length : Int) < maxConcurrent
    · exact (h.acquire_admits hlt).2
    · exact h.acquire_refuses (by omega)
  | release q =>
    obtain ⟨hq, rfl⟩ := of_ite_some hs
    exact h.release hq

/-- At most `_MAX_CONCURRENT` queries are in flight, and one is admitted when none is. -/
theorem usage_queries_limited (hr : (machine.restrict keepsCounter).Reachable w) :
    (w.inflight.length : Int) ≤ maxConcurrent ∧ (w.inflight = [] → 0 ≤ w.acquire.1) := by
  have h : Inv w := by
    refine hr.invariant ?_ fun v a v' hi hs => ?_
    · rintro v ⟨hkey, hempty⟩
      exact ⟨by simp [World.count, World.get, hkey, hempty], by simp [hempty, maxConcurrent]⟩
    · obtain ⟨hc, hs⟩ := Machine.restrict_step_eq_some.mp hs
      exact hi.step hc hs
  refine ⟨h.le, fun hempty => (h.acquire_admits ?_).1⟩
  simp [hempty, maxConcurrent]

def sampleWorld : World := ⟨0, none, [], 0⟩

theorem sampleWorld_initial : machine.init sampleWorld := ⟨rfl, rfl⟩

/-- Four queries, of which all but one are released when the key is about to expire. -/
def limitedWorld : World :=
  ((machine.restrict keepsCounter).run sampleWorld [.acquire, .acquire, .acquire, .acquire, .acquire, .pass 119999,
    .release ⟨0, 0⟩, .release ⟨1, 0⟩, .release ⟨2, 0⟩, .release ⟨3, 0⟩, .pass 1]).get (by decide +kernel)

theorem usage_queries_limited_sample : limitedWorld.inflight = [] ∧ 0 ≤ limitedWorld.acquire.1 := by
  have hr : (machine.restrict keepsCounter).Reachable limitedWorld :=
    ⟨_, sampleWorld_initial, _, (some_get _).symm⟩
  have hempty : limitedWorld.inflight = [] := by decide +kernel
  exact ⟨hempty, (usage_queries_limited hr).2 hempty⟩

/-- The key expires with the first query while three later ones run. -/
def expiredRun : List Action :=
  [.acquire, .pass 100000, .acquire, .acquire, .acquire, .release ⟨0, 0⟩, .pass 20001]

def crowdedWorld : World :=
  (machine.run sampleWorld (expiredRun ++ List.replicate 4 .acquire)).get (by decide +kernel)

def blockedWorld : World :=
  (machine.run sampleWorld (expiredRun ++ [.release ⟨1, 100000⟩, .release ⟨2, 100000⟩, .release ⟨3, 100000⟩])).get
    (by decide +kernel)

theorem usage_queries_unlimited : (machine.Reachable crowdedWorld ∧ crowdedWorld.inflight.length = 7) ∧
      machine.Reachable blockedWorld ∧ blockedWorld.inflight = [] ∧ blockedWorld.acquire.1 < 0 :=
  ⟨⟨⟨_, sampleWorld_initial, _, (some_get _).symm⟩, by decide +kernel⟩,
    ⟨_, sampleWorld_initial, _, (some_get _).symm⟩, by decide +kernel, by decide +kernel⟩

end IbexHarness.UsageQuery
