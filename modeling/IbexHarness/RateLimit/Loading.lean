import IbexHarness.Lib.GoMap
import IbexHarness.RateLimit.Hierarchical

/-! `ApplyOrgOverrides` and `ReplaceAllOverrides` of `packages/ratelimit/hierarchical.go`. -/

namespace IbexHarness.RateLimit

open Lib Function

structure OrgOverrideSet where
  orgRPM : Option Int
  agentRPM : GoMap Uuid Int

abbrev AgentOverrideKey := Uuid × Uuid

abbrev OrgRPM := Uuid → Option Int
abbrev AgentRPM := AgentOverrideKey → Option Int

def putAgent (orgID : Uuid) (agentRPM : AgentRPM) (agentID : Uuid) (rpm : Int) : AgentRPM :=
  if 0 < rpm ∧ agentID ≠ 0 then update agentRPM (orgID, agentID) (some rpm) else agentRPM

def putOrg (orgRPM : OrgRPM) (orgID : Uuid) : Option Int → OrgRPM
  | none => orgRPM
  | some rpm => if 0 < rpm then update orgRPM orgID (some rpm) else orgRPM

def putOrgSetInto (maps : OrgRPM × AgentRPM) (orgID : Uuid) (set : OrgOverrideSet) : OrgRPM × AgentRPM :=
  (putOrg maps.1 orgID set.orgRPM, set.agentRPM.range (putAgent orgID) maps.2)

namespace HierarchicalLimiter

def clearOrgLocked (h : HierarchicalLimiter) (orgID : Uuid) : HierarchicalLimiter :=
  { h with
    dbOrgRPM := update h.dbOrgRPM orgID none
    dbAgentRPM := fun k => if k.1 = orgID then none else h.dbAgentRPM k }

def putOrgSetLocked (h : HierarchicalLimiter) (orgID : Uuid) (set : OrgOverrideSet) : HierarchicalLimiter :=
  let (orgRPM, agentRPM) := putOrgSetInto (h.dbOrgRPM, h.dbAgentRPM) orgID set
  { h with dbOrgRPM := orgRPM, dbAgentRPM := agentRPM }

def applyOrgOverrides (h : HierarchicalLimiter) (orgID : Uuid) (set : OrgOverrideSet) : HierarchicalLimiter :=
  (h.clearOrgLocked orgID).putOrgSetLocked orgID set

def replaceAllOverrides (h : HierarchicalLimiter) (all : GoMap Uuid OrgOverrideSet) : HierarchicalLimiter :=
  let (orgRPM, agentRPM) := all.range putOrgSetInto (fun _ => none, fun _ => none)
  { h with dbOrgRPM := orgRPM, dbAgentRPM := agentRPM }

end HierarchicalLimiter

/-! ## Sequences of loads -/

inductive Load where
  | replaceAll (all : GoMap Uuid OrgOverrideSet)
  | applyOrg (orgID : Uuid) (set : OrgOverrideSet)

def HierarchicalLimiter.load (h : HierarchicalLimiter) : Load → HierarchicalLimiter
  | .replaceAll all => h.replaceAllOverrides all
  | .applyOrg orgID set => h.applyOrgOverrides orgID set

def HierarchicalLimiter.loads (h : HierarchicalLimiter) (calls : List Load) : HierarchicalLimiter :=
  calls.foldl HierarchicalLimiter.load h

/-! ## What the loads amount to -/

structure Overrides where
  orgRPM : Option Int
  agentRPM : Uuid → Option Int

def OrgOverrideSet.view (set : OrgOverrideSet) : Overrides := ⟨set.orgRPM, set.agentRPM.lookup⟩

/-- One table for all organizations, in which a load replaces one entry or all. -/
abbrev Table := Uuid → Option Overrides

def viewAll (all : GoMap Uuid OrgOverrideSet) : Table := fun o => (all.lookup o).map OrgOverrideSet.view

def Load.apply (t : Table) : Load → Table
  | .replaceAll all => viewAll all
  | .applyOrg orgID set => update t orgID (some set.view)

def Overrides.org (s : Overrides) : Option Int := s.orgRPM.filter (0 < ·)

def Overrides.agent (s : Overrides) (agentID : Uuid) : Option Int :=
  if agentID = 0 then none else (s.agentRPM agentID).filter (0 < ·)

/-- The limiter's maps hold the usable overrides of the table and nothing else. -/
structure Loaded (h : HierarchicalLimiter) (t : Table) : Prop where
  org : ∀ o, h.dbOrgRPM o = (t o).bind Overrides.org
  agent : ∀ o a, h.dbAgentRPM (o, a) = (t o).bind (·.agent a)

section

variable {h : HierarchicalLimiter} {t : Table} {maps : OrgRPM × AgentRPM}

/-! ## One organization's set -/

theorem putAgent_own (o a : Uuid) (m : AgentRPM) (rpm : Int) :
    putAgent o m a rpm (o, a) = if a = 0 then m (o, a) else ((some rpm).filter (0 < ·)).or (m (o, a)) := by
  unfold putAgent
  by_cases ha : a = 0
  · simp [ha]
  · by_cases hpos : 0 < rpm <;> simp [ha, hpos, Option.filter]

theorem putAgent_of_ne {o a a' : Uuid} (ha : a' ≠ a) (m : AgentRPM) (rpm : Int) :
    putAgent o m a' rpm (o, a) = m (o, a) := by
  unfold putAgent
  split
  · exact update_of_ne (by simpa using Ne.symm ha) _ _
  · rfl

theorem putAgent_other {o o' : Uuid} (ho : o' ≠ o) (m : AgentRPM) (a a' : Uuid) (rpm : Int) :
    putAgent o' m a' rpm (o, a) = m (o, a) := by
  unfold putAgent
  split
  · exact update_of_ne (by simp [Ne.symm ho]) _ _
  · rfl

theorem putOrg_own (o : Uuid) (m : OrgRPM) (rpm : Option Int) : putOrg m o rpm o = (rpm.filter (0 < ·)).or (m o) := by
  cases rpm with
  | none => rfl
  | some rpm => by_cases hpos : 0 < rpm <;> simp [putOrg, hpos, Option.filter]

theorem putOrg_other {o o' : Uuid} (ho : o' ≠ o) (m : OrgRPM) (rpm : Option Int) : putOrg m o' rpm o = m o := by
  cases rpm with
  | none => rfl
  | some rpm => by_cases hpos : 0 < rpm <;> simp [putOrg, hpos, Ne.symm ho]

/-- A set is written over what the maps hold for its organization. -/
theorem putOrgSetInto_own (o a : Uuid) (set : OrgOverrideSet) :
    (putOrgSetInto maps o set).1 o = set.view.org.or (maps.1 o) ∧
      (putOrgSetInto maps o set).2 (o, a) = (set.view.agent a).or (maps.2 (o, a)) := by
  refine ⟨putOrg_own o maps.1 set.orgRPM, ?_⟩
  have hrange := set.agentRPM.obs_range a (fun m : AgentRPM => m (o, a))
    (fun rpm old => if a = 0 then old else ((some rpm).filter (0 < ·)).or old)
    (fun m a' rpm ha => putAgent_of_ne ha m rpm) (putAgent_own o a) maps.2
  change set.agentRPM.range (putAgent o) maps.2 (o, a) = _
  rw [hrange]
  simp only [Overrides.agent, OrgOverrideSet.view]
  by_cases ha : a = 0 <;> cases set.agentRPM.lookup a <;> simp [ha]

theorem putOrgSetInto_other {o o' : Uuid} (ho : o' ≠ o) (a : Uuid) (set : OrgOverrideSet) :
    (putOrgSetInto maps o' set).1 o = maps.1 o ∧ (putOrgSetInto maps o' set).2 (o, a) = maps.2 (o, a) := by
  refine ⟨putOrg_other ho maps.1 set.orgRPM, ?_⟩
  suffices hfold : ∀ (entries : List (Uuid × Int)) (m : AgentRPM),
      entries.foldl (fun m e => putAgent o' m e.1 e.2) m (o, a) = m (o, a) from hfold _ maps.2
  intro entries
  induction entries with
  | nil => exact fun m => rfl
  | cons e entries ih => exact fun m => (ih _).trans (putAgent_other ho m a e.1 e.2)

/-! ## Loads -/

theorem loaded_new (defaultRPM globalRPM : Int) (orgOverrides : Uuid → Option Int) :
    Loaded (newHierarchicalLimiter defaultRPM globalRPM orgOverrides) fun _ => none :=
  ⟨fun _ => rfl, fun _ _ => rfl⟩

theorem loaded_replaceAllOverrides (h : HierarchicalLimiter) (all : GoMap Uuid OrgOverrideSet) :
    Loaded (h.replaceAllOverrides all) (viewAll all) := by
  constructor
  · intro o
    have hrange := all.obs_range o (fun maps : OrgRPM × AgentRPM => maps.1 o) (fun set old => set.view.org.or old)
      (fun m o' set ho => (putOrgSetInto_other ho 0 set).1) (fun m set => (putOrgSetInto_own o 0 set).1)
      (fun _ => none, fun _ => none)
    change (all.range putOrgSetInto (fun _ => none, fun _ => none)).1 o = _
    rw [hrange, viewAll]
    cases all.lookup o <;> simp
  · intro o a
    have hrange := all.obs_range o (fun maps : OrgRPM × AgentRPM => maps.2 (o, a))
      (fun set old => (set.view.agent a).or old)
      (fun m o' set ho => (putOrgSetInto_other ho a set).2) (fun m set => (putOrgSetInto_own o a set).2)
      (fun _ => none, fun _ => none)
    change (all.range putOrgSetInto (fun _ => none, fun _ => none)).2 (o, a) = _
    rw [hrange, viewAll]
    cases all.lookup o <;> simp

theorem Loaded.applyOrgOverrides (hl : Loaded h t) (o : Uuid) (set : OrgOverrideSet) :
    Loaded (h.applyOrgOverrides o set) (update t o (some set.view)) := by
  constructor
  · intro o'
    change (putOrgSetInto ((h.clearOrgLocked o).dbOrgRPM, (h.clearOrgLocked o).dbAgentRPM) o set).1 o' = _
    by_cases ho : o = o'
    · subst ho
      rw [(putOrgSetInto_own o 0 set).1]
      simp [HierarchicalLimiter.clearOrgLocked]
    · rw [(putOrgSetInto_other ho 0 set).1, update_of_ne (Ne.symm ho), ← hl.org]
      exact update_of_ne (Ne.symm ho) _ _
  · intro o' a
    change (putOrgSetInto ((h.clearOrgLocked o).dbOrgRPM, (h.clearOrgLocked o).dbAgentRPM) o set).2 (o', a) = _
    by_cases ho : o = o'
    · subst ho
      rw [(putOrgSetInto_own o a set).2]
      simp [HierarchicalLimiter.clearOrgLocked]
    · rw [(putOrgSetInto_other ho a set).2, update_of_ne (Ne.symm ho), ← hl.agent]
      exact if_neg (Ne.symm ho)

theorem Loaded.load (hl : Loaded h t) (call : Load) : Loaded (h.load call) (call.apply t) := by
  cases call with
  | replaceAll all => exact loaded_replaceAllOverrides h all
  | applyOrg o set => exact hl.applyOrgOverrides o set

theorem Loaded.loads (hl : Loaded h t) (calls : List Load) : Loaded (h.loads calls) (calls.foldl Load.apply t) := by
  induction calls generalizing h t with
  | nil => exact hl
  | cons call calls ih => exact ih (hl.load call)

/-! ## Limits -/

structure SameConfig (h h' : HierarchicalLimiter) : Prop where
  defaultRPM : h'.defaultRPM = h.defaultRPM
  orgOverrides : h'.orgOverrides = h.orgOverrides
  globalRPM : h'.globalRPM = h.globalRPM

theorem sameConfig_load (h : HierarchicalLimiter) (call : Load) : SameConfig h (h.load call) := by
  cases call with
  | replaceAll | applyOrg => exact ⟨rfl, rfl, rfl⟩

/-- The limits of an organization depend on its entry in the table alone. -/
theorem Loaded.resolvedLimits_eq {h' : HierarchicalLimiter} {t' : Table} (hl : Loaded h t) (hl' : Loaded h' t')
    (hc : SameConfig h h') {o : Uuid} (ho : t' o = t o) (a : Uuid) : h'.resolvedLimits o a = h.resolvedLimits o a := by
  unfold HierarchicalLimiter.resolvedLimits
  rw [hl.org, hl'.org, hl.agent, hl'.agent, ho, hc.defaultRPM, hc.orgOverrides, hc.globalRPM]

/-- After any loads, replacing all overrides and then those of one organization resolves the same limits as replacing
all with that organization's in place, whatever order the maps are ranged over; a load for one organization leaves the
limits of the others. -/
theorem incremental_load_eq_full (defaultRPM globalRPM : Int) (orgOverrides : Uuid → Option Int) (calls : List Load)
    (all all' : GoMap Uuid OrgOverrideSet) (org : Uuid) (set : OrgOverrideSet)
    (hall : viewAll all' = update (viewAll all) org (some set.view)) :
    let h := (newHierarchicalLimiter defaultRPM globalRPM orgOverrides).loads calls
    (∀ o a, ((h.replaceAllOverrides all).applyOrgOverrides org set).resolvedLimits o a =
        (h.replaceAllOverrides all').resolvedLimits o a) ∧
      ∀ o a, o ≠ org → ((h.replaceAllOverrides all).applyOrgOverrides org set).resolvedLimits o a =
            (h.replaceAllOverrides all).resolvedLimits o a ∧
          (h.applyOrgOverrides org set).resolvedLimits o a = h.resolvedLimits o a := by
  intro h
  have hh : Loaded h _ := (loaded_new defaultRPM globalRPM orgOverrides).loads calls
  have hfull : Loaded (h.replaceAllOverrides all) _ := loaded_replaceAllOverrides h all
  have hfull' : Loaded (h.replaceAllOverrides all') _ := loaded_replaceAllOverrides h all'
  have happlied := hfull.applyOrgOverrides org set
  have hkept (g : HierarchicalLimiter) : SameConfig g (g.applyOrgOverrides org set) :=
    sameConfig_load g (.applyOrg org set)
  refine ⟨fun o a => ?_, fun o a ho => ⟨?_, ?_⟩⟩
  · exact hfull'.resolvedLimits_eq happlied ⟨rfl, rfl, rfl⟩ (by rw [hall]) a
  · exact hfull.resolvedLimits_eq happlied (hkept _) (update_of_ne ho _ _) a
  · exact hh.resolvedLimits_eq (hh.applyOrgOverrides org set) (hkept _) (update_of_ne ho _ _) a

section Example

/-- Organization 1 has an override of its own and for two agents; organization 2 one for an agent. -/
def sampleOverrides : GoMap Uuid OrgOverrideSet :=
  ⟨[(1, ⟨some 40, ⟨[(5, 7), (6, 9)], by decide⟩⟩), (2, ⟨none, ⟨[(5, 3)], by decide⟩⟩)], by decide⟩

/-- Agent 6 loses its override, agent 5 gets one that does not count. -/
def sampleSet : OrgOverrideSet := ⟨some 30, ⟨[(5, -1)], by decide⟩⟩

/-- The same with the set in place, ranged over the other way. -/
def sampleReplaced : GoMap Uuid OrgOverrideSet :=
  ⟨[(2, ⟨none, ⟨[(5, 3)], by decide⟩⟩), (1, sampleSet)], by decide⟩

theorem viewAll_sampleReplaced :
    viewAll sampleReplaced = update (viewAll sampleOverrides) 1 (some sampleSet.view) := by
  funext o
  by_cases h₁ : o = 1
  · subst h₁
    rfl
  · by_cases h₂ : o = 2
    · subst h₂
      rfl
    · rw [update_of_ne h₁]
      simp [viewAll, GoMap.lookup, GoMap.lookupIn, sampleReplaced, sampleOverrides, Ne.symm h₁, Ne.symm h₂]

theorem incremental_load_eq_full_sample :
    let h := (newHierarchicalLimiter 60 1000 fun _ => none).loads [.applyOrg 3 sampleSet]
    (h.replaceAllOverrides sampleOverrides).resolvedLimits 1 6 = ⟨9, 40, 1000⟩ ∧
      ((h.replaceAllOverrides sampleOverrides).applyOrgOverrides 1 sampleSet).resolvedLimits 1 6 = ⟨60, 30, 1000⟩ ∧
      (h.replaceAllOverrides sampleReplaced).resolvedLimits 1 6 = ⟨60, 30, 1000⟩ := by
  have heq := (incremental_load_eq_full 60 1000 (fun _ => none) [.applyOrg 3 sampleSet] sampleOverrides sampleReplaced 1
    sampleSet viewAll_sampleReplaced).1 1 6
  exact ⟨by decide, by decide, heq.symm.trans (by decide)⟩

end Example

end

end IbexHarness.RateLimit
