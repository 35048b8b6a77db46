import IbexHarness.Lib.Machine

/-! `packages/directive`: `CachedResolver` and its `writePool` on any number of proxies that share one Redis. -/

namespace IbexHarness.Directive

open Lib Function

variable {κ α : Type}

structure Loaded (α : Type) where
  resolved : α
  began : Nat
deriving DecidableEq

structure CacheWriteJob (κ α : Type) where
  key : κ
  loaded : Loaded α

/-! ## The pool -/

structure PoolConfig where
  writeWorkers : Int
  writeQueue : Int

def PoolConfig.workers (c : PoolConfig) : Nat := if c.writeWorkers < 1 then 4 else c.writeWorkers.toNat

def PoolConfig.queue (c : PoolConfig) : Nat := if c.writeQueue < 1 then 64 else c.writeQueue.toNat

structure WritePool (κ α : Type) where
  jobs : List (CacheWriteJob κ α)
  /-- jobs that workers have taken and not yet written -/
  busy : List (CacheWriteJob κ α)
  closed : Bool

def WritePool.empty : WritePool κ α := ⟨[], [], false⟩

def WritePool.trySubmit (c : PoolConfig) (p : WritePool κ α) (job : CacheWriteJob κ α) : WritePool κ α :=
  if p.closed then p else if p.jobs.length < c.queue then { p with jobs := p.jobs ++ [job] } else p

/-! ## Calls -/

inductive ResolveStage (α : Type) where
  /-- `getCached` -/
  | get
  | load
  | loading (began : Nat)
  /-- `schedulePopulate` -/
  | schedule (loaded : Loaded α)
  | returned (result : Option (Loaded α))
deriving DecidableEq

structure Resolve (κ α : Type) where
  proxy : Nat
  key : κ
  started : Nat
  stage : ResolveStage α
deriving DecidableEq

inductive InvalidateStage where
  | del
  | deleted
  | returned (ended : Nat)
deriving DecidableEq

structure Invalidation (κ : Type) where
  key : κ
  began : Nat
  stage : InvalidateStage
deriving DecidableEq

structure World (κ α : Type) where
  now : Nat
  /-- Redis -/
  cache : κ → Option (Loaded α)
  pools : Nat → WritePool κ α
  resolves : List (Resolve κ α)
  invalidations : List (Invalidation κ)

inductive Action (κ α : Type) where
  | resolve (proxy : Nat) (key : κ)
  /-- the loader's answer counts at the end of its call -/
  | advanceResolve (r : Nat) (answer : Option α)
  | invalidate (key : κ)
  | advanceInvalidate (i : Nat)
  /-- a worker receives a job -/
  | take (proxy : Nat)
  /-- `populateCache` of the job that a worker has -/
  | populate (proxy : Nat) (worker : Nat)
  | expire (key : κ)
  | shutdown (proxy : Nat)

namespace World

variable [DecidableEq κ] (c : PoolConfig) (w : World κ α)

def setResolve (r : Nat) (R : Resolve κ α) : World κ α := { w with resolves := w.resolves.set r R }

def setPool (p : Nat) (pool : WritePool κ α) : World κ α := { w with pools := update w.pools p pool }

def advanceResolve (r : Nat) (answer : Option α) : Option (World κ α) :=
  match w.resolves[r]? with
  | none => none
  | some R =>
    match R.stage with
    | .get =>
      match w.cache R.key with
      | some loaded => some (w.setResolve r { R with stage := .returned (some loaded) })
      | none => some (w.setResolve r { R with stage := .load })
    | .load => some (w.setResolve r { R with stage := .loading w.now })
    | .loading began =>
      match answer with
      | none => some (w.setResolve r { R with stage := .returned none })
      | some resolved => some (w.setResolve r { R with stage := .schedule ⟨resolved, began⟩ })
    | .schedule loaded =>
      some ((w.setPool R.proxy ((w.pools R.proxy).trySubmit c ⟨R.key, loaded⟩)).setResolve r
        { R with stage := .returned (some loaded) })
    | .returned _ => none

def advanceInvalidate (i : Nat) : Option (World κ α) :=
  match w.invalidations[i]? with
  | none => none
  | some I =>
    match I.stage with
    | .del => some { w with
        cache := update w.cache I.key none
        invalidations := w.invalidations.set i { I with stage := .deleted } }
    | .deleted => some { w with invalidations := w.invalidations.set i { I with stage := .returned w.now } }
    | .returned _ => none

def take (p : Nat) : Option (World κ α) :=
  match (w.pools p).jobs with
  | [] => none
  | job :: jobs =>
    if (w.pools p).busy.length < c.workers then
      some (w.setPool p { w.pools p with jobs, busy := (w.pools p).busy ++ [job] })
    else none

def populate (p worker : Nat) : Option (World κ α) :=
  match (w.pools p).busy[worker]? with
  | none => none
  | some job => some { w.setPool p { w.pools p with busy := (w.pools p).busy.eraseIdx worker } with
      cache := update w.cache job.key (some job.loaded) }

def act : Action κ α → Option (World κ α)
  | .resolve p key => some { w with resolves := w.resolves ++ [⟨p, key, w.now, .get⟩] }
  | .advanceResolve r answer => w.advanceResolve c r answer
  | .invalidate key => some { w with invalidations := w.invalidations ++ [⟨key, w.now, .del⟩] }
  | .advanceInvalidate i => w.advanceInvalidate i
  | .take p => w.take c p
  | .populate p worker => w.populate p worker
  | .expire key => some { w with cache := update w.cache key none }
  | .shutdown p => some (w.setPool p { w.pools p with closed := true })

def step (a : Action κ α) : Option (World κ α) := (w.act c a).map fun w' => { w' with now := w.now + 1 }

def initial : World κ α := ⟨0, fun _ => none, fun _ => .empty, [], []⟩

end World

def machine [DecidableEq κ] (c : PoolConfig) : Machine (World κ α) (Action κ α) where
  init w := w = World.initial
  step := World.step c

end IbexHarness.Directive
