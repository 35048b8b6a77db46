import IbexHarness.Lib.Generation
import IbexHarness.Lib.Lru
import IbexHarness.Lib.Machine
import IbexHarness.Lib.Text

/-! `packages/modelpolicy/cache.go`. -/

namespace IbexHarness.ModelPolicy

open Lib

def maxPolicyLoadAttempts : Nat := 3

structure Policy where
  pattern : Text
  allowed : Bool
  priority : Int
  fallbackChain : List Text

structure OrgPolicies where
  epoch : Nat
  policies : List Policy

/-- An entry; entries are compared by `id`, the step that made them. -/
structure CachedPolicies where
  id : Nat
  snap : OrgPolicies
  expiresAt : Nat
  stamp : Stamp
  -- the step at which the loader call began
  loadBegan : Nat

/-! ## Processes -/

/-- Where a call of `SnapshotForOrg` is; `failed` is `ErrPolicyUnavailable`. -/
inductive Stage where
  | lookup
  | dropStale
  | capture (attempt : Nat)
  | load (attempt : Nat) (stamp : Stamp)
  | loading (attempt : Nat) (stamp : Stamp) (began : Nat)
  | install (attempt : Nat) (stamp : Stamp) (began : Nat) (snap : OrgPolicies)
  | add (attempt : Nat) (entry : CachedPolicies)
  | recheck (attempt : Nat) (entry : CachedPolicies)
  | peek (attempt : Nat) (entry : CachedPolicies)
  | remove (attempt : Nat)
  | done (snap : OrgPolicies)
  | failed

structure Call where
  org : Uuid
  started : Nat
  stage : Stage

/-- A process: a call, an `Invalidate`, or either of them in the callback of an entry it pushed out or
removed. -/
inductive Process where
  | idle
  | call (c : Call)
  | invalidating (org : Uuid) (began : Nat)
  | bumped (org : Uuid) (began effective : Nat)
  | removed (org : Uuid) (began effective : Nat)
  | evicting (key : Uuid) (entry : CachedPolicies) (next : Process)

/-- An answer from the cache: when its call started and when its snapshot's load began. -/
structure Served where
  org : Uuid
  started : Nat
  loadBegan : Nat
deriving DecidableEq

structure Invalidation where
  org : Uuid
  began : Nat
  returned : Nat
deriving DecidableEq

structure World (procs : Nat) (cache : Lru Uuid CachedPolicies) where
  tick : Nat
  clock : Nat
  gens : Generations Uuid
  lru : cache.State
  procs : Fin procs → Process
  served : List Served
  invalidations : List Invalidation

variable {procs : Nat} {cache : Lru Uuid CachedPolicies}

namespace World

def init : World procs cache := ⟨0, 0, .zero, cache.empty, fun _ => .idle, [], []⟩

def setProc (w : World procs cache) (i : Fin procs) (p : Process) : World procs cache :=
  { w with procs := Function.update w.procs i p }

def setStage (w : World procs cache) (i : Fin procs) (c : Call) (stage : Stage) : World procs cache :=
  w.setProc i (.call { c with stage := stage })

/-- `lru.Remove`; the callback of what was removed comes before `next`. -/
def lruRemove (w : World procs cache) (i : Fin procs) (key : Uuid) (next : Process) : World procs cache :=
  { w with lru := cache.remove w.lru key }.setProc i
    (match cache.peek w.lru key with
    | none => next
    | some entry => .evicting key entry next)

/-- `lru.Add`; the callback of what was pushed out comes before `next`. -/
def lruAdd (w : World procs cache) (i : Fin procs) (key : Uuid) (entry : CachedPolicies) (next : Process) :
    World procs cache :=
  { w with lru := (cache.add w.lru key entry).1 }.setProc i
    (match (cache.add w.lru key entry).2 with
    | none => next
    | some out => .evicting out.1 out.2 next)

def lookup (w : World procs cache) (i : Fin procs) (c : Call) : World procs cache :=
  match cache.peek w.lru c.org with
  | none => w.setStage i c (.capture 0)
  | some entry =>
    let w := { w with lru := cache.get w.lru c.org }
    if entry.stamp.gen ≠ w.gens.gen c.org then w.setStage i c .dropStale
    else if entry.expiresAt ≤ w.clock then w.setStage i c .dropStale
    else { w with served := ⟨c.org, c.started, entry.loadBegan⟩ :: w.served }.setStage i c (.done entry.snap)

def onLRUEvict (w : World procs cache) (i : Fin procs) (key : Uuid) (entry : CachedPolicies) (next : Process) :
    World procs cache :=
  (if w.gens.gen key = entry.stamp.gen then { w with gens := w.gens.drop key } else w).setProc i next

end World

def nextAttempt (attempt : Nat) : Stage :=
  if attempt + 1 < maxPolicyLoadAttempts then .capture (attempt + 1) else .failed

def World.install (cacheTTL : Nat) (w : World procs cache) (i : Fin procs) (c : Call) (attempt : Nat)
    (stamp : Stamp) (began : Nat) (snap : OrgPolicies) : World procs cache :=
  if w.gens.gen c.org ≠ stamp.gen then w.setStage i c (nextAttempt attempt)
  else w.setStage i c (.add attempt ⟨w.tick, snap, w.clock + cacheTTL, stamp, began⟩)

/-! ## The machine -/

inductive Action (procs : Nat) where
  | begin (i : Fin procs) (org : Uuid)
  | cachedEpoch (org : Uuid)
  | beginInvalidate (i : Fin procs) (org : Uuid)
  | loadReturns (i : Fin procs) (result : Option OrgPolicies)
  | advance (i : Fin procs)
  | elapse (d : Nat)

section Machine

variable (validPattern : Text → Bool) (cacheTTL : Nat)

def validated (result : Option OrgPolicies) : Option OrgPolicies :=
  result.filter fun snap => 1 ≤ snap.epoch && snap.policies.all fun p => validPattern p.pattern

def World.advanceCall (w : World procs cache) (i : Fin procs) (c : Call) : Option (World procs cache) :=
  match c.stage with
  | .lookup => some (w.lookup i c)
  | .dropStale => some (w.lruRemove i c.org (.call { c with stage := .capture 0 }))
  | .capture attempt => some (w.setStage i c (.load attempt ⟨w.gens.gen c.org, w.tick⟩))
  | .load attempt stamp => some (w.setStage i c (.loading attempt stamp w.tick))
  | .install attempt stamp began snap => some (w.install cacheTTL i c attempt stamp began snap)
  | .add attempt entry => some (w.lruAdd i c.org entry (.call { c with stage := .recheck attempt entry }))
  | .recheck attempt entry =>
    if w.gens.gen c.org ≠ entry.stamp.gen then some (w.setStage i c (.peek attempt entry))
    else some (w.setStage i c (.done entry.snap))
  | .peek attempt entry =>
    if (cache.peek w.lru c.org).any fun e => e.id = entry.id then some (w.setStage i c (.remove attempt))
    else some (w.setStage i c (nextAttempt attempt))
  | .remove attempt => some (w.lruRemove i c.org (.call { c with stage := nextAttempt attempt }))
  | .loading _ _ _ | .done _ | .failed => none

def World.act (w : World procs cache) : Action procs → Option (World procs cache)
  | .begin i org =>
    match w.procs i with
    | .idle => some (w.setProc i (.call ⟨org, w.tick, .lookup⟩))
    | _ => none
  | .cachedEpoch org => some { w with lru := cache.get w.lru org }
  | .beginInvalidate i org =>
    match w.procs i with
    | .idle =>
      -- `Invalidate` of the nil organization returns at once
      if org = 0 then some (w.setProc i (.removed org w.tick w.tick)) else some (w.setProc i (.invalidating org w.tick))
    | _ => none
  | .loadReturns i result =>
    match w.procs i with
    | .call ⟨org, started, .loading attempt stamp began⟩ =>
      match validated validPattern result with
      | some snap => some (w.setProc i (.call ⟨org, started, .install attempt stamp began snap⟩))
      | none => some (w.setProc i (.call ⟨org, started, .failed⟩))
    | _ => none
  | .advance i =>
    match w.procs i with
    | .idle => none
    | .call c => w.advanceCall cacheTTL i c
    | .invalidating org began =>
      some ({ w with gens := w.gens.bump org w.tick }.setProc i (.bumped org began w.tick))
    | .bumped org began effective => some (w.lruRemove i org (.removed org began effective))
    | .removed org began _ =>
      some ({ w with invalidations := ⟨org, began, w.tick⟩ :: w.invalidations }.setProc i .idle)
    | .evicting key entry next => some (w.onLRUEvict i key entry next)
  | .elapse d => some { w with clock := w.clock + d }

def World.step (w : World procs cache) (a : Action procs) : Option (World procs cache) :=
  (w.act validPattern cacheTTL a).map fun w' => { w' with tick := w.tick + 1 }

def machine (procs : Nat) (cache : Lru Uuid CachedPolicies) : Machine (World procs cache) (Action procs) where
  init w := w = .init
  step := World.step validPattern cacheTTL

end Machine

/-! ## Quiet evictions -/

/-- The process is between reading the generation of `key` and its `lru.Add`. -/
def Process.holds (key : Uuid) : Process → Bool
  | .call c =>
    c.org = key && match c.stage with
      | .load _ _ | .loading _ _ _ | .install _ _ _ _ | .add _ _ => true
      | _ => false
  | .evicting _ _ next => next.holds key
  | .idle | .invalidating _ _ | .bumped _ _ _ | .removed _ _ _ => false

/-- A callback forgets a generation other than 0 only when no load of the key is on its way and the cache has
no entry of it; the nil organization is not invalidated. -/
def World.quiet (w : World procs cache) : Action procs → Bool
  | .advance i =>
    match w.procs i with
    | .evicting key entry _ =>
      w.gens.gen key ≠ entry.stamp.gen || w.gens.gen key = 0 ||
        (decide (∀ j, (w.procs j).holds key = false) && (cache.peek w.lru key).isNone)
    | _ => true
  | .beginInvalidate _ org => org ≠ 0
  | _ => true

end IbexHarness.ModelPolicy
