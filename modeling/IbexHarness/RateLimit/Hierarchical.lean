import IbexHarness.Lib.Text
import IbexHarness.Lib.Machine
import Mathlib.Data.Int.DivMod

/-! `HierarchicalLimiter.Check` of `packages/ratelimit` and its Redis script, for calls within one UTC minute. -/

namespace IbexHarness.RateLimit

open Lib

inductive Tier where
  | agent
  | org
  | global
deriving DecidableEq

/-- The counters in Redis: `agentRPMKey`, `orgRPMKey` and `globalRPMKey`. -/
inductive Key where
  | agent (orgID agentID : Uuid) (unixMinute : Int)
  | org (orgID : Uuid) (unixMinute : Int)
  | global (unixMinute : Int)
deriving DecidableEq

abbrev Counters := Key → Int

namespace Counters

def incr (c : Counters) (k : Key) : Counters := Function.update c k (c k + 1)

def decr (c : Counters) (k : Key) : Counters := Function.update c k (c k - 1)

end Counters

structure Limits where
  agent : Int
  org : Int
  global : Int
deriving DecidableEq

structure Reply where
  allowed : Bool
  tier : Option Tier
  orgCount : Int
  orgLimit : Int

/-- The part of `hierarchicalLua` after the agent tier; `agent` is its key if that tier is enabled. -/
def outerTiers (agent : Option Key) (org global : Key) (limits : Limits) (c : Counters) : Reply × Counters :=
  let rollback (c : Counters) : Counters := agent.elim c c.decr
  let orgCount := c org + 1
  let c := c.incr org
  if limits.org < orgCount then (⟨false, some .org, orgCount, limits.org⟩, rollback c)
  else
    let globalCount := c global + 1
    let c := c.incr global
    if limits.global < globalCount then
      (⟨false, some .global, orgCount - 1, limits.org⟩, (rollback c).decr org)
    else (⟨true, none, orgCount, limits.org⟩, c)

def hierarchicalLua (agent : Option Key) (org global : Key) (limits : Limits) (c : Counters) : Reply × Counters :=
  match agent with
  | none => outerTiers none org global limits c
  | some key =>
    let agentCount := c key + 1
    let c := c.incr key
    if limits.agent < agentCount then (⟨false, some .agent, c org, limits.org⟩, c)
    else outerTiers (some key) org global limits c

/-! ## The limiter -/

/-- `HierarchicalConfig` and the database overrides, with the defaults of `NewHierarchicalLimiter` in place. -/
structure HierarchicalLimiter where
  defaultRPM : Int
  orgOverrides : Uuid → Option Int
  globalRPM : Int
  dbOrgRPM : Uuid → Option Int
  dbAgentRPM : Uuid × Uuid → Option Int
  defaultRPM_pos : 1 ≤ defaultRPM
  globalRPM_pos : 1 ≤ globalRPM

def newHierarchicalLimiter (defaultRPM globalRPM : Int) (orgOverrides : Uuid → Option Int) : HierarchicalLimiter where
  defaultRPM := if defaultRPM < 1 then 60 else defaultRPM
  orgOverrides := orgOverrides
  globalRPM := if globalRPM < 1 then 100000 else globalRPM
  dbOrgRPM _ := none
  dbAgentRPM _ := none
  defaultRPM_pos := by split <;> omega
  globalRPM_pos := by split <;> omega

def override (o : Option Int) (limit : Int) : Int := (o.filter (0 < ·)).getD limit

def HierarchicalLimiter.resolvedLimits (h : HierarchicalLimiter) (orgID agentID : Uuid) : Limits where
  agent := if agentID = 0 then h.defaultRPM else override (h.dbAgentRPM (orgID, agentID)) h.defaultRPM
  org := override (h.dbOrgRPM orgID) (override (h.orgOverrides orgID) h.defaultRPM)
  global := h.globalRPM

structure MinuteWindow where
  unixMinute : Int
  resetUnix : Int
  retryAfter : Int

def currentMinuteWindow (now : Int) : MinuteWindow :=
  let unixMinute := (now / 1000000000).tdiv 60
  let resetUnix := (unixMinute + 1) * 60
  ⟨unixMinute, resetUnix, resetUnix * 1000000000 - now⟩

structure Result where
  allowed : Bool
  limit : Int
  remaining : Int
  resetUnix : Int
  retryAfter : Int
  deniedTier : Option Tier

def resultFromCount (count limit : Int) (window : MinuteWindow) : Result :=
  if limit < count then ⟨false, limit, 0, window.resetUnix, window.retryAfter, none⟩
  else ⟨true, limit, max (limit - count) 0, window.resetUnix, 0, none⟩

def resultFromHierarchical (reply : Reply) (orgLimit : Int) (window : MinuteWindow) : Result :=
  let limit := if reply.orgLimit < 1 then orgLimit else reply.orgLimit
  let res := resultFromCount reply.orgCount limit window
  if reply.allowed then res
  else { res with
    allowed := false, remaining := 0, retryAfter := window.retryAfter, deniedTier := some (reply.tier.getD .org) }

def agentKey (orgID agentID : Uuid) (unixMinute : Int) : Option Key :=
  if agentID = 0 then none else some (.agent orgID agentID unixMinute)

def HierarchicalLimiter.check (h : HierarchicalLimiter) (now : Int) (orgID agentID : Uuid) (c : Counters) :
    Result × Counters :=
  let limits := h.resolvedLimits orgID agentID
  let window := currentMinuteWindow now
  let minute := window.unixMinute
  let (reply, c) := hierarchicalLua (agentKey orgID agentID minute) (.org orgID minute) (.global minute) limits c
  (resultFromHierarchical reply limits.org window, c)

/-! ## The machine -/

structure Call where
  now : Int
  orgID : Uuid
  agentID : Uuid

structure Checked where
  call : Call
  result : Result

structure World where
  counters : Counters
  log : List Checked

def World.allowed (w : World) (p : Call → Bool) : Nat := w.log.countP fun e => p e.call && e.result.allowed

def World.check (w : World) (h : HierarchicalLimiter) (a : Call) : World :=
  let (result, counters) := h.check a.now a.orgID a.agentID w.counters
  ⟨counters, ⟨a, result⟩ :: w.log⟩

/-- The calls of one minute, which begins with none of its counters set. -/
def machine (h : HierarchicalLimiter) (minute : Int) : Machine World Call where
  init w := w.log = [] ∧ (∀ o a, w.counters (.agent o a minute) = 0) ∧ (∀ o, w.counters (.org o minute) = 0) ∧
    w.counters (.global minute) = 0
  step w a := if (currentMinuteWindow a.now).unixMinute = minute then some (w.check h a) else none

end IbexHarness.RateLimit
