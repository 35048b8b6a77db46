import IbexHarness.RateLimit.Hierarchical
import IbexHarness.Lib.Quota

/-! The tier that denies a call keeps its increment and the others get theirs back. -/

namespace IbexHarness.RateLimit

open Lib Option

/-! ## The script -/

section Script

variable {agent : Option Key} {org global : Key} {limits : Limits} {c : Counters}

def deniedBy (agent : Option Key) (org global : Key) (limits : Limits) (c : Counters) : Option Tier :=
  if agent.any fun k => limits.agent < c k + 1 then some .agent
  else if limits.org < c org + 1 then some .org
  else if limits.global < c global + 1 then some .global
  else none

/-- The keys that keep their increment: those of a call that is allowed, or the one that denies it. -/
def counted (agent : Option Key) (org global : Key) : Option Tier → Key → Bool
  | some .agent, k => agent = some k
  | some .org, k => k = org
  | some .global, k => k = global
  | none, k => agent = some k || k = org || k = global

theorem deniedBy_some (k : Key) : deniedBy (some k) org global limits c =
    if limits.agent < c k + 1 then some .agent else deniedBy none org global limits c := by
  simp [deniedBy]

theorem deniedBy_none : deniedBy none org global limits c =
    if limits.org < c org + 1 then some .org else if limits.global < c global + 1 then some .global else none := rfl

theorem deniedBy_eq_none_iff : deniedBy agent org global limits c = none ↔
    (∀ k ∈ agent, c k + 1 ≤ limits.agent) ∧ c org + 1 ≤ limits.org ∧ c global + 1 ≤ limits.global := by
  unfold deniedBy
  cases agent <;> grind

theorem full_of_deniedBy_agent (h : deniedBy agent org global limits c = some .agent) :
    ∀ k ∈ agent, limits.agent < c k + 1 := by
  unfold deniedBy at h
  cases agent <;> grind

theorem full_of_deniedBy_org (h : deniedBy agent org global limits c = some .org) : limits.org < c org + 1 := by
  unfold deniedBy at h
  grind

theorem full_of_deniedBy_global (h : deniedBy agent org global limits c = some .global) :
    limits.global < c global + 1 := by
  unfold deniedBy at h
  grind

structure Decided (agent : Option Key) (org global : Key) (limits : Limits) (c : Counters)
    (r : Reply × Counters) : Prop where
  tier : r.1.tier = deniedBy agent org global limits c
  allowed : r.1.allowed = r.1.tier.isNone
  limit : r.1.orgLimit = limits.org
  count : r.1.allowed = true → r.1.orgCount ≤ limits.org
  counters : ∀ k, r.2 k = c k + if counted agent org global r.1.tier k then 1 else 0

theorem Counters.incr_apply (c : Counters) (k k' : Key) : c.incr k k' = c k' + if k' = k then 1 else 0 := by
  by_cases h : k' = k <;> simp [Counters.incr, h]

theorem Counters.decr_apply (c : Counters) (k k' : Key) : c.decr k k' = c k' - if k' = k then 1 else 0 := by
  by_cases h : k' = k <;> simp [Counters.decr, h]

theorem decided_of_disabled (hne : org ≠ global) :
    Decided none org global limits c (hierarchicalLua none org global limits c) := by
  have hglobal : c.incr org global = c global := by simp [Counters.incr_apply, hne.symm]
  simp only [hierarchicalLua, outerTiers, hglobal, elim_none]
  split_ifs with horg hover
  · exact ⟨by rw [deniedBy_none, if_pos horg], rfl, rfl, nofun, fun k => by simp [counted, Counters.incr_apply]⟩
  · refine ⟨by rw [deniedBy_none, if_neg horg, if_pos hover], rfl, rfl, nofun, fun k => ?_⟩
    simp only [counted, Counters.incr_apply, Counters.decr_apply]
    grind
  · refine ⟨by rw [deniedBy_none, if_neg horg, if_neg hover], rfl, rfl, fun _ => not_lt.mp horg, fun k => ?_⟩
    simp only [counted, Counters.incr_apply]
    grind

theorem decided_of_enabled {key : Key} (hne : org ≠ global) (horg' : key ≠ org) (hglobal' : key ≠ global) :
    Decided (some key) org global limits c (hierarchicalLua (some key) org global limits c) := by
  have horg : c.incr key org = c org := by simp [Counters.incr_apply, horg'.symm]
  have hglobal : (c.incr key).incr org global = c global := by
    simp [Counters.incr_apply, hne.symm, hglobal'.symm]
  simp only [hierarchicalLua, outerTiers, horg, hglobal, elim_some]
  split_ifs with hagent horg hover
  · exact ⟨by rw [deniedBy_some, if_pos hagent], rfl, rfl, nofun,
      fun k => by simp [counted, Counters.incr_apply, eq_comm]⟩
  · refine ⟨by rw [deniedBy_some, if_neg hagent, deniedBy_none, if_pos horg], rfl, rfl, nofun, fun k => ?_⟩
    simp only [counted, Counters.incr_apply, Counters.decr_apply]
    grind
  · refine ⟨by rw [deniedBy_some, if_neg hagent, deniedBy_none, if_neg horg, if_pos hover], rfl, rfl, nofun,
      fun k => ?_⟩
    simp only [counted, Counters.incr_apply, Counters.decr_apply]
    grind
  · refine ⟨by rw [deniedBy_some, if_neg hagent, deniedBy_none, if_neg horg, if_neg hover], rfl, rfl,
      fun _ => not_lt.mp horg, fun k => ?_⟩
    simp only [counted, Counters.incr_apply]
    grind

end Script

/-! ## One call -/

section Check

variable {h : HierarchicalLimiter} {now : Int} {o a : Uuid} {c : Counters}

theorem override_pos {limit : Int} (x : Option Int) (hl : 1 ≤ limit) : 1 ≤ override x limit := by
  unfold override
  cases hx : x.filter (0 < ·) with
  | none => exact hl
  | some rpm =>
    have hpos := (filter_eq_some_iff.mp hx).2
    simp only [decide_eq_true_eq] at hpos
    exact hpos

theorem resolvedLimits_pos (h : HierarchicalLimiter) (o a : Uuid) :
    1 ≤ (h.resolvedLimits o a).agent ∧ 1 ≤ (h.resolvedLimits o a).org ∧ 1 ≤ (h.resolvedLimits o a).global := by
  refine ⟨?_, override_pos _ (override_pos _ h.defaultRPM_pos), h.globalRPM_pos⟩
  unfold HierarchicalLimiter.resolvedLimits
  split_ifs
  · exact h.defaultRPM_pos
  · exact override_pos _ h.defaultRPM_pos

theorem hierarchicalLua_decided (minute : Int) (limits : Limits) :
    Decided (agentKey o a minute) (.org o minute) (.global minute) limits c
      (hierarchicalLua (agentKey o a minute) (.org o minute) (.global minute) limits c) := by
  unfold agentKey
  split_ifs
  · exact decided_of_disabled nofun
  · exact decided_of_enabled nofun nofun nofun

def deniedTier (h : HierarchicalLimiter) (minute : Int) (o a : Uuid) (c : Counters) : Option Tier :=
  deniedBy (agentKey o a minute) (.org o minute) (.global minute) (h.resolvedLimits o a) c

theorem resultFromHierarchical_spec {reply : Reply} {limit : Int} (window : MinuteWindow)
    (hallowed : reply.allowed = reply.tier.isNone) (hlimit : reply.orgLimit = limit)
    (hcount : reply.allowed = true → reply.orgCount ≤ limit) :
    (resultFromHierarchical reply limit window).allowed = reply.tier.isNone ∧
      (resultFromHierarchical reply limit window).deniedTier = reply.tier := by
  cases htier : reply.tier with
  | some tier =>
    have hno : reply.allowed = false := by simp [hallowed, htier]
    simp [resultFromHierarchical, hno, htier]
  | none =>
    have hok : reply.allowed = true := by simp [hallowed, htier]
    have hle := hcount hok
    simp [resultFromHierarchical, resultFromCount, hok, hlimit, not_lt.mpr hle]

/-- Result and counters depend only on the tier that denies the call. -/
theorem check_spec {minute : Int} (hm : (currentMinuteWindow now).unixMinute = minute) :
    (h.check now o a c).1.allowed = (deniedTier h minute o a c).isNone ∧
      (h.check now o a c).1.deniedTier = deniedTier h minute o a c ∧
      ∀ k, (h.check now o a c).2 k = c k +
        if counted (agentKey o a minute) (.org o minute) (.global minute) (deniedTier h minute o a c) k then 1 else
          0 := by
  subst hm
  obtain ⟨htier, hallowed, hlimit, hcount, hcounters⟩ :=
    hierarchicalLua_decided (o := o) (a := a) (c := c) (currentMinuteWindow now).unixMinute (h.resolvedLimits o a)
  obtain ⟨hres, hdenied⟩ := resultFromHierarchical_spec (currentMinuteWindow now) hallowed hlimit hcount
  rw [htier] at hres hdenied hcounters
  exact ⟨hres, hdenied, hcounters⟩

end Check

/-! ## A minute -/

section Minute

variable {h : HierarchicalLimiter} {minute : Int} {w : World}

def ofAgent (o a : Uuid) (c : Call) : Bool := c.orgID = o && c.agentID = a

def ofOrg (o : Uuid) (c : Call) : Bool := c.orgID = o

structure Inv (h : HierarchicalLimiter) (minute : Int) (w : World) : Prop where
  agent : ∀ o a, a ≠ 0 →
    Tracks (h.resolvedLimits o a).agent (w.allowed (ofAgent o a)) (w.counters (.agent o a minute))
  org : ∀ o, Tracks (h.resolvedLimits o 0).org (w.allowed (ofOrg o)) (w.counters (.org o minute))
  global : Tracks h.globalRPM (w.allowed fun _ => true) (w.counters (.global minute))

structure Admissible (h : HierarchicalLimiter) (w : World) (o a : Uuid) : Prop where
  agent : a ≠ 0 → (w.allowed (ofAgent o a) : Int) < (h.resolvedLimits o a).agent
  org : (w.allowed (ofOrg o) : Int) < (h.resolvedLimits o a).org
  global : (w.allowed (fun _ => true) : Int) < (h.resolvedLimits o a).global

theorem Inv.deniedTier_eq_none_iff (hi : Inv h minute w) (o a : Uuid) :
    deniedTier h minute o a w.counters = none ↔ Admissible h w o a := by
  have hagent : (∀ k ∈ agentKey o a minute, w.counters k + 1 ≤ (h.resolvedLimits o a).agent) ↔
      (a ≠ 0 → (w.allowed (ofAgent o a) : Int) < (h.resolvedLimits o a).agent) := by
    by_cases ha : a = 0
    · simp [agentKey, ha]
    · simpa [agentKey, ha] using (hi.agent o a ha).succ_le_iff
  have horg : w.counters (.org o minute) + 1 ≤ (h.resolvedLimits o a).org ↔ _ := (hi.org o).succ_le_iff
  have hglobal : w.counters (.global minute) + 1 ≤ (h.resolvedLimits o a).global ↔ _ := hi.global.succ_le_iff
  rw [deniedTier, deniedBy_eq_none_iff, hagent, horg, hglobal]
  exact ⟨fun ⟨h₁, h₂, h₃⟩ => ⟨h₁, h₂, h₃⟩, fun ⟨h₁, h₂, h₃⟩ => ⟨h₁, h₂, h₃⟩⟩

theorem allowed_check (a : Call) (p : Call → Bool) (hm : (currentMinuteWindow a.now).unixMinute = minute) :
    (w.check h a).allowed p = w.allowed p +
      if p a && (deniedTier h minute a.orgID a.agentID w.counters).isNone then 1 else 0 := by
  simp [World.allowed, World.check, List.countP_cons, (check_spec hm).1]

/-- The keys of the call, tier by tier. -/
theorem counted_agent (a : Call) (tier : Option Tier) {o g : Uuid} (hg : g ≠ 0) :
    counted (agentKey a.orgID a.agentID minute) (.org a.orgID minute) (.global minute) tier (.agent o g minute) =
      (ofAgent o g a && (tier.isNone || tier == some .agent)) := by
  have hkey : agentKey a.orgID a.agentID minute = some (.agent o g minute) ↔ a.orgID = o ∧ a.agentID = g := by
    unfold agentKey
    split_ifs with ha
    · simp [ha, hg.symm]
    · simp
  rcases tier with _ | _ | _ | _ <;> simp [counted, ofAgent, hkey]

theorem counted_org (a : Call) (tier : Option Tier) (o : Uuid) :
    counted (agentKey a.orgID a.agentID minute) (.org a.orgID minute) (.global minute) tier (.org o minute) =
      (ofOrg o a && (tier.isNone || tier == some .org)) := by
  have hkey : agentKey a.orgID a.agentID minute ≠ some (.org o minute) := by
    unfold agentKey
    split_ifs <;> simp
  rcases tier with _ | _ | _ | _ <;> simp [counted, ofOrg, hkey, eq_comm (a := o)]

theorem counted_global (a : Call) (tier : Option Tier) :
    counted (agentKey a.orgID a.agentID minute) (.org a.orgID minute) (.global minute) tier (.global minute) =
      (tier.isNone || tier == some .global) := by
  have hkey : agentKey a.orgID a.agentID minute ≠ some (.global minute) := by
    unfold agentKey
    split_ifs <;> simp
  rcases tier with _ | _ | _ | _ <;> simp [counted, hkey]

theorem Inv.check (hi : Inv h minute w) (a : Call) (hm : (currentMinuteWindow a.now).unixMinute = minute) :
    Inv h minute (w.check h a) := by
  have hcounters : ∀ k, (w.check h a).counters k = _ := (check_spec hm).2.2
  -- what the script found left, or not left, in each tier of the call
  have hfits (hnone : (deniedTier h minute a.orgID a.agentID w.counters).isNone = true) :=
    deniedBy_eq_none_iff.mp (isNone_iff_eq_none.mp hnone)
  refine ⟨fun o g hg => ?_, fun o => ?_, ?_⟩
  · rw [allowed_check a _ hm, hcounters, counted_agent a _ hg]
    refine (hi.agent o g hg).call _ _ _ (fun hown hnone => ?_) fun hown hhere => ?_
    all_goals
      simp only [ofAgent, Bool.and_eq_true, decide_eq_true_eq] at hown
      obtain ⟨rfl, rfl⟩ := hown
    · exact (hfits hnone).1 _ (by simp [agentKey, hg])
    · exact full_of_deniedBy_agent (eq_of_beq hhere) _ (by simp [agentKey, hg])
  · rw [allowed_check a _ hm, hcounters, counted_org]
    refine (hi.org o).call _ _ _ (fun hown hnone => ?_) fun hown hhere => ?_
    all_goals obtain rfl := of_decide_eq_true hown
    · exact (hfits hnone).2.1
    · have hfull : (h.resolvedLimits a.orgID a.agentID).org < _ := full_of_deniedBy_org (eq_of_beq hhere)
      exact hfull
  · rw [allowed_check a _ hm, hcounters, counted_global]
    exact hi.global.call true _ _ (fun _ hnone => (hfits hnone).2.2) fun _ hhere =>
      full_of_deniedBy_global (eq_of_beq hhere)

theorem inv (hr : (machine h minute).Reachable w) : Inv h minute w := by
  refine hr.invariant (P := Inv h minute) (fun w hw => ?_) fun w a w' hi hs => ?_
  · obtain ⟨hlog, hagent, horg, hglobal⟩ := hw
    have hzero (p : Call → Bool) : w.allowed p = 0 := by simp [World.allowed, hlog]
    refine ⟨fun o a _ => ?_, fun o => ?_, ?_⟩
    · rw [hzero, hagent]
      exact .zero (by have := (resolvedLimits_pos h o a).1; omega)
    · rw [hzero, horg]
      exact .zero (by have := (resolvedLimits_pos h o 0).2.1; omega)
    · rw [hzero, hglobal]
      exact .zero (by have := h.globalRPM_pos; omega)
  · simp only [machine] at hs
    split_ifs at hs with hm
    cases hs
    exact hi.check a hm

end Minute

def Call.key (a : Call) (minute : Int) : Tier → Key
  | .agent => .agent a.orgID a.agentID minute
  | .org => .org a.orgID minute
  | .global => .global minute

/-- A call is allowed exactly when its agent, its organization and all together had fewer calls allowed in the minute
than their limits, and a call that is denied changes no counter but the denying tier's. -/
theorem check_exact {h : HierarchicalLimiter} {minute : Int} {w : World} (hr : (machine h minute).Reachable w)
    (a : Call) (hm : (currentMinuteWindow a.now).unixMinute = minute) :
    ((h.check a.now a.orgID a.agentID w.counters).1.allowed = true ↔
        (a.agentID ≠ 0 → (w.allowed (ofAgent a.orgID a.agentID) : Int) < (h.resolvedLimits a.orgID a.agentID).agent) ∧
        (w.allowed (ofOrg a.orgID) : Int) < (h.resolvedLimits a.orgID a.agentID).org ∧
        (w.allowed (fun _ => true) : Int) < (h.resolvedLimits a.orgID a.agentID).global) ∧
      ∀ tier, (h.check a.now a.orgID a.agentID w.counters).1.deniedTier = some tier → ∀ k, k ≠ a.key minute tier →
        (h.check a.now a.orgID a.agentID w.counters).2 k = w.counters k := by
  obtain ⟨hallowed, hdenied, hcounters⟩ := check_spec (h := h) (o := a.orgID) (a := a.agentID) (c := w.counters) hm
  constructor
  · rw [hallowed, isNone_iff_eq_none, (inv hr).deniedTier_eq_none_iff]
    exact ⟨fun ⟨h₁, h₂, h₃⟩ => ⟨h₁, h₂, h₃⟩, fun ⟨h₁, h₂, h₃⟩ => ⟨h₁, h₂, h₃⟩⟩
  · intro tier ht k hk
    rw [hdenied] at ht
    have hnot : counted (agentKey a.orgID a.agentID minute) (.org a.orgID minute) (.global minute) (some tier) k =
        false := by
      cases tier with
      | agent =>
        simp only [counted, agentKey]
        split_ifs
        · simp
        · simpa [Call.key, eq_comm] using hk
      | org | global => simpa [counted, Call.key] using hk
    rw [hcounters, ht, hnot]
    simp

def sampleLimiter : HierarchicalLimiter := newHierarchicalLimiter 2 3 fun _ => none

/-- The calls of two agents of one organization, one without an agent and one of another organization. -/
def sampleCalls : List Call := [⟨0, 1, 1⟩, ⟨0, 1, 2⟩, ⟨0, 1, 1⟩, ⟨0, 1, 0⟩, ⟨0, 2, 0⟩, ⟨0, 2, 0⟩]

def sampleWorld : World := ((machine sampleLimiter 0).run ⟨fun _ => 0, []⟩ sampleCalls).get (by decide)

theorem check_exact_sample :
    sampleWorld.log.map (fun e => e.result.deniedTier) = [some .global, none, some .org, some .org, none, none] ∧
      sampleWorld.allowed (fun _ => true) = 3 ∧
      (sampleLimiter.check 0 3 0 sampleWorld.counters).1.allowed ≠ true := by
  have hr : (machine sampleLimiter 0).Reachable sampleWorld :=
    ⟨⟨fun _ => 0, []⟩, ⟨rfl, fun _ _ => rfl, fun _ => rfl, rfl⟩, sampleCalls, (some_get _).symm⟩
  have hexact := (check_exact hr ⟨0, 3, 0⟩ rfl).1
  exact ⟨by decide, by decide, fun hallowed => absurd (hexact.mp hallowed).2.2 (by decide)⟩

end IbexHarness.RateLimit
