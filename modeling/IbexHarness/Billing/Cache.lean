import IbexHarness.Billing.Estimate
import IbexHarness.Lib.Generation
import IbexHarness.Lib.Lru
import IbexHarness.Lib.Machine

/-! `packages/billing/cache.go`: an LRU with a time to live in front of the loader. -/

namespace IbexHarness.Billing.Cache

open Lib

def maxBudgetLoadAttempts : Nat := 3

structure BudgetSnapshot where
  capCents : Int
  spentCents : Int
  hasHardCap : Bool
  publishedCard : CardVersion

structure CachedBudget where
  snap : BudgetSnapshot
  expiresAt : Nat
  stamp : Stamp
  -- the step at which the loader call began
  loadBegan : Nat

namespace BudgetSnapshot

def remainingCents (s : BudgetSnapshot) : Int :=
  let rem := s.capCents - s.spentCents
  if rem < 0 then 0 else rem

def check (s : BudgetSnapshot) : Bool × Int :=
  if !s.hasHardCap then (true, s.remainingCents)
  else if s.remainingCents ≤ 0 ∨ s.spentCents ≥ s.capCents then (false, 0)
  else (true, s.remainingCents)

end BudgetSnapshot

/-! ## Processes -/

inductive Request where
  | snapshot
  | check
  | publishedCard
deriving DecidableEq

inductive Answer where
  | snapshot (s : BudgetSnapshot)
  | verdict (allowed : Bool) (remainingCents : Int)
  | card (c : CardVersion)
  | unavailable

def Request.answer (r : Request) (s : BudgetSnapshot) : Answer :=
  match r with
  | .snapshot => .snapshot s
  | .check => .verdict s.check.1 s.check.2
  | .publishedCard => .card s.publishedCard

inductive Stage where
  | lookup
  | capture (attempt : Nat)
  | load (attempt : Nat) (stamp : Stamp)
  | loading (attempt : Nat) (stamp : Stamp) (began : Nat)
  | install (attempt : Nat) (stamp : Stamp) (began : Nat) (snap : BudgetSnapshot)
  | done (answer : Answer)

structure Call where
  request : Request
  org : Uuid
  started : Nat
  stage : Stage

/-- A process: a call, or an `Invalidate` before or after its locked section. -/
inductive Process where
  | idle
  | call (c : Call)
  | invalidating (org : Uuid) (began : Nat)
  | invalidated (org : Uuid) (began effective : Nat)

/-- An answer from the cache: when its call started and when its snapshot's load began. -/
structure Served where
  org : Uuid
  started : Nat
  loadBegan : Nat

structure Loaded where
  org : Uuid
  loadBegan : Nat
  installed : Nat

/-- An `Invalidate` that returned; its locked section was step `effective`. -/
structure Invalidation where
  org : Uuid
  began : Nat
  effective : Nat
  returned : Nat

structure World (cache : Lru Uuid CachedBudget) where
  tick : Nat
  clock : Nat
  gens : Generations Uuid
  lru : cache.State
  procs : Nat → Process
  served : List Served
  loaded : List Loaded
  invalidations : List Invalidation

namespace World

variable {cache : Lru Uuid CachedBudget}

def init : World cache := ⟨0, 0, .zero, cache.empty, fun _ => .idle, [], [], []⟩

def setProc (w : World cache) (i : Nat) (p : Process) : World cache :=
  { w with procs := Function.update w.procs i p }

def setStage (w : World cache) (i : Nat) (c : Call) (stage : Stage) : World cache :=
  w.setProc i (.call { c with stage := stage })

def lookup (w : World cache) (i : Nat) (c : Call) : World cache :=
  match cache.peek w.lru c.org with
  | none => w.setStage i c (.capture 0)
  | some entry =>
    let used := cache.get w.lru c.org
    if entry.stamp.gen ≠ w.gens.gen c.org then { w with lru := cache.remove used c.org }.setStage i c (.capture 0)
    else if entry.expiresAt ≤ w.clock then { w with lru := cache.remove used c.org }.setStage i c (.capture 0)
    else { w with lru := used, served := ⟨c.org, c.started, entry.loadBegan⟩ :: w.served }.setStage i c
      (.done (c.request.answer entry.snap))

/-- `installSnapshot` in the lock it holds throughout; the generation cannot change between the two
comparisons. -/
def install (cacheTTL : Nat) (w : World cache) (i : Nat) (c : Call) (attempt : Nat) (stamp : Stamp)
    (began : Nat) (snap : BudgetSnapshot) : World cache :=
  if w.gens.gen c.org ≠ stamp.gen then
    w.setStage i c (if attempt + 1 < maxBudgetLoadAttempts then .capture (attempt + 1) else .done .unavailable)
  else
    { w with
      lru := (cache.add w.lru c.org ⟨snap, w.clock + cacheTTL, stamp, began⟩).1
      loaded := ⟨c.org, began, w.tick⟩ :: w.loaded }.setStage i c (.done (c.request.answer snap))

def invalidate (w : World cache) (i : Nat) (org : Uuid) (began : Nat) : World cache :=
  let w := w.setProc i (.invalidated org began w.tick)
  if org = 0 then w else { w with gens := w.gens.bump org w.tick, lru := cache.remove w.lru org }

end World

/-! ## The machine -/

inductive Action where
  | begin (i : Nat) (request : Request) (org : Uuid)
  | lookup (i : Nat)
  | capture (i : Nat)
  | load (i : Nat)
  | loadReturns (i : Nat) (result : Option (BudgetSnapshot))
  | install (i : Nat)
  | beginInvalidate (i : Nat) (org : Uuid)
  | invalidate (i : Nat)
  | invalidateReturns (i : Nat)
  | elapse (d : Nat)

variable {cache : Lru Uuid CachedBudget}

def World.act (cacheTTL : Nat) (w : World cache) : Action → Option (World cache)
  | .begin i request org =>
    -- `Check` rejects the nil organization before it looks anything up
    let stage : Stage := if request = .check ∧ org = 0 then .done .unavailable else .lookup
    match w.procs i with
    | .idle => some (w.setProc i (.call ⟨request, org, w.tick, stage⟩))
    | _ => none
  | .lookup i =>
    match w.procs i with
    | .call ⟨request, org, started, .lookup⟩ => some (w.lookup i ⟨request, org, started, .lookup⟩)
    | _ => none
  | .capture i =>
    match w.procs i with
    | .call ⟨request, org, started, .capture attempt⟩ =>
      some (w.setProc i (.call ⟨request, org, started, .load attempt ⟨w.gens.gen org, w.tick⟩⟩))
    | _ => none
  | .load i =>
    match w.procs i with
    | .call ⟨request, org, started, .load attempt stamp⟩ =>
      some (w.setProc i (.call ⟨request, org, started, .loading attempt stamp w.tick⟩))
    | _ => none
  | .loadReturns i result =>
    match w.procs i with
    | .call ⟨request, org, started, .loading attempt stamp began⟩ =>
      -- `Store.LoadOrg` fails for the nil organization
      match if org = 0 then none else result with
      | some snap => some (w.setProc i (.call ⟨request, org, started, .install attempt stamp began snap⟩))
      | none => some (w.setProc i (.call ⟨request, org, started, .done .unavailable⟩))
    | _ => none
  | .install i =>
    match w.procs i with
    | .call ⟨request, org, started, .install attempt stamp began snap⟩ =>
      some (w.install cacheTTL i ⟨request, org, started, .install attempt stamp began snap⟩ attempt stamp began snap)
    | _ => none
  | .beginInvalidate i org =>
    match w.procs i with
    | .idle => some (w.setProc i (.invalidating org w.tick))
    | _ => none
  | .invalidate i =>
    match w.procs i with
    | .invalidating org began => some (w.invalidate i org began)
    | _ => none
  | .invalidateReturns i =>
    match w.procs i with
    | .invalidated org began effective =>
      some ({ w with invalidations := ⟨org, began, effective, w.tick⟩ :: w.invalidations }.setProc i .idle)
    | _ => none
  | .elapse d => some { w with clock := w.clock + d }

def World.step (cacheTTL : Nat) (w : World cache) (a : Action) : Option (World cache) :=
  (w.act cacheTTL a).map fun w' => { w' with tick := w.tick + 1 }

def cacheMachine (cache : Lru Uuid CachedBudget) (cacheTTL : Nat) : Machine (World cache) (Action) where
  init w := w = .init
  step := World.step cacheTTL

end IbexHarness.Billing.Cache
