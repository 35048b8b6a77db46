import IbexHarness.Lib.Text
import IbexHarness.Memory.Lifecycle
import Mathlib.Data.List.Infix
import Mathlib.Data.List.Nodup
import Mathlib.Order.Lattice

/-! `services/memory/app/conflict` and the transaction of `write/orchestrator.py` that closes superseded intervals.
Times are microseconds since 1970. -/

namespace IbexHarness.Memory

open Lib List Function

/-! ## Decisions -/

/-- `_OPEN`, the greatest `datetime` -/
def openEnd : Int := 253402300799999999

structure ValidityInterval where
  validFrom : Int
  validUntil : Option Int
  nonempty : ∀ e ∈ validUntil, validFrom < e

def ValidityInterval.endExclusive (i : ValidityInterval) : Int := i.validUntil.getD openEnd

def intervalsOverlap (left right : ValidityInterval) : Bool :=
  left.validFrom < right.endExclusive && right.validFrom < left.endExclusive

inductive ConflictOutcome where
  | supersedes
  | contradicts
  | nearDuplicate
  | unrelated
  | noConflict
  | escalatePending
deriving DecidableEq

structure CandidateMemory where
  memoryID : Nat
  content : Text
  interval : ValidityInterval
  lifecycleRevision : Int

structure IncomingMemory where
  content : Text
  interval : ValidityInterval

structure ConflictDecision where
  candidateID : Nat
  outcome : ConflictOutcome
  llmCallMade : Bool
  subjectKey : Text
  notes : String

def subjectsMatch (left right : Text) : Bool :=
  if left.isEmpty || right.isEmpty then false
  else if left = right then true
  else left <:+: right || right <:+: left

def isSequentialSupersede (sameSubject newer overlap : Bool) : Bool :=
  if !sameSubject then false
  else if !newer then false
  else !overlap

/-- `extract` stands for `extract_subject_key`, which asks a language model for the subject of a text. -/
structure ConflictService where
  extract : Text → Text
  classify : IncomingMemory → CandidateMemory → ConflictOutcome
  invokesLLM : Bool

namespace ConflictService

variable (svc : ConflictService) (incoming : IncomingMemory)

/-- A classifier cannot supersede. -/
def escalate (candidate : CandidateMemory) (subjectKey : Text) (reason : String) : ConflictDecision × Bool :=
  let outcome := svc.classify incoming candidate
  (⟨candidate.memoryID, if outcome = .supersedes then .escalatePending else outcome, svc.invokesLLM, subjectKey,
    reason⟩, svc.invokesLLM)

def decideOne (incomingSubject : Text) (candidate : CandidateMemory) : ConflictDecision × Bool :=
  let candSubject := svc.extract candidate.content
  let subjectKey := if incomingSubject.isEmpty then candSubject else incomingSubject
  let newer := candidate.interval.validFrom < incoming.interval.validFrom
  let overlap := intervalsOverlap incoming.interval candidate.interval
  if isSequentialSupersede (subjectsMatch incomingSubject candSubject) newer overlap then
    (⟨candidate.memoryID, .supersedes, false, subjectKey, "sequential_non_overlapping"⟩, false)
  else if overlap then svc.escalate incoming candidate subjectKey "interval_overlap"
  else (⟨candidate.memoryID, .noConflict, false, subjectKey, "non_overlapping_distinct_or_older"⟩, false)

def decisions (candidates : List CandidateMemory) : List ConflictDecision :=
  candidates.map fun c => (svc.decideOne incoming (svc.extract incoming.content) c).1

/-- `pending_supersede_targets` -/
def targets (candidates : List CandidateMemory) : List Nat :=
  ((svc.decisions incoming candidates).filter (·.outcome = .supersedes)).map (·.candidateID)

def Supersedes (candidate : CandidateMemory) : Prop :=
  (svc.decideOne incoming (svc.extract incoming.content) candidate).1.outcome = .supersedes

instance (candidate : CandidateMemory) : Decidable (svc.Supersedes incoming candidate) :=
  inferInstanceAs (Decidable (_ = _))

end ConflictService

/-- `pending_supersede_revisions`, a `dict` -/
def observedRevision (candidates : List CandidateMemory) (target : Nat) : Option Int :=
  (candidates.reverse.find? (·.memoryID = target)).map (·.lifecycleRevision)

/-! ## The transaction -/

structure TemporalRow extends MemoryRow where
  validFrom : Int
  validUntil : Option Int

/-- `memories_valid_interval_chk` -/
def TemporalRow.validIntervalChk (row : TemporalRow) : Bool := row.validUntil.all (row.validFrom < ·)

inductive WriteError where
  | staleMemoryRevision
  | integrity

abbrev Memories := Nat → Option TemporalRow

/-- `LEAST(COALESCE(valid_until, :closed_at), :closed_at)` -/
def closedUntil (validUntil : Option Int) (closedAt : Int) : Int := min (validUntil.getD closedAt) closedAt

structure SupersedeApply where
  agentID : Uuid
  newMemoryID : Nat
  targetMemoryID : Nat
  expectedRevision : Int

def TemporalRow.updatable (row : TemporalRow) (apply : SupersedeApply) : Bool :=
  row.agentID = apply.agentID && row.status = .active && !row.deleted && !row.tombstoned &&
    row.lifecycleRevision = apply.expectedRevision

def applySupersession (apply : SupersedeApply) (closedAt : Int) (rows : Memories) : Except WriteError Memories :=
  match (rows apply.targetMemoryID).filter (·.updatable apply) with
  | none => .error .staleMemoryRevision
  | some row =>
    match bumpMemoryLifecycleRevision row.toMemoryRow
        { row.toMemoryRow with status := .superseded, supersededBy := some apply.newMemoryID } true with
    | none => .error .integrity
    | some new =>
      let closed : TemporalRow := ⟨new, row.validFrom, some (closedUntil row.validUntil closedAt)⟩
      if closed.validIntervalChk then .ok (update rows apply.targetMemoryID (some closed))
      else .error .integrity

section
variable (agentID : Uuid) (newMemoryID : Nat) (candidates : List CandidateMemory) (closedAt : Nat → Int)

/-- `_apply_supersession_and_escalations`; each target is closed at the time its update is built. -/
def applySupersessions (targets : List Nat) (rows : Memories) : Except WriteError Memories :=
  targets.foldlM (fun rows target =>
    match observedRevision candidates target with
    | none => .error .staleMemoryRevision
    | some revision => applySupersession ⟨agentID, newMemoryID, target, revision⟩ (closedAt target) rows) rows

/-- `_insert_active_memory_tx`: an error rolls all of it back. -/
def insertActiveMemory (svc : ConflictService) (new : TemporalRow) (incoming : IncomingMemory) (rows : Memories) :
    Except WriteError Memories :=
  applySupersessions agentID newMemoryID candidates closedAt (svc.targets incoming candidates)
    (update rows newMemoryID (some new))

end

/-! ## Closing an interval -/

variable {agentID : Uuid} {newMemoryID : Nat} {candidates : List CandidateMemory} {closedAt : Nat → Int}
  {rows : Memories}

theorem lt_closedUntil {start now : Int} {validUntil : Option Int} (h : ∀ e ∈ validUntil, start < e) :
    start < closedUntil validUntil now ↔ start < now := by
  cases validUntil with
  | none => simp [closedUntil]
  | some e => simp [closedUntil, h e rfl]

theorem applySupersession_eq {apply : SupersedeApply} {row : TemporalRow} (now : Int)
    (hrow : rows apply.targetMemoryID = some row) (hup : row.updatable apply = true)
    (hchk : ∀ e ∈ row.validUntil, row.validFrom < e) :
    ∃ closed, applySupersession apply now rows =
      if row.validFrom < now then .ok (update rows apply.targetMemoryID (some closed)) else .error
        .integrity := by
  have hstatus : row.status = .active ∧ row.tombstoned = false := by
    simp only [TemporalRow.updatable, Bool.and_eq_true, decide_eq_true_eq, Bool.not_eq_true'] at hup
    exact ⟨hup.1.1.1.2, hup.1.2⟩
  simp only [applySupersession, hrow, Option.filter, hup, if_true, bumpMemoryLifecycleRevision, hstatus,
    TemporalRow.validIntervalChk, Option.all_some, decide_eq_true_eq, lt_closedUntil hchk]
  exact ⟨_, rfl⟩

/-- The row is as the candidate was loaded from it. -/
structure TemporalRow.Loaded (row : TemporalRow) (agentID : Uuid) (c : CandidateMemory) : Prop where
  updatable : ∀ newMemoryID, row.updatable ⟨agentID, newMemoryID, c.memoryID, c.lifecycleRevision⟩ = true
  validFrom : row.validFrom = c.interval.validFrom
  validUntil : row.validUntil = c.interval.validUntil

theorem observedRevision_eq {c : CandidateMemory} (hids : (candidates.map (·.memoryID)).Nodup) (hc : c ∈ candidates) :
    observedRevision candidates c.memoryID = some c.lifecycleRevision := by
  cases hfind : candidates.reverse.find? (·.memoryID = c.memoryID) with
  | none => simpa using List.find?_eq_none.mp hfind c (mem_reverse.mpr hc)
  | some d =>
    have hmem := mem_reverse.mp (mem_of_find?_eq_some hfind)
    have hid : d.memoryID = c.memoryID := by simpa using List.find?_some hfind
    rw [observedRevision, hfind, inj_on_of_nodup_map hids hmem hc hid, Option.map_some]

theorem applySupersessions_ok_iff (hids : (candidates.map (·.memoryID)).Nodup) {chosen : List CandidateMemory}
    (hsub : chosen.Sublist candidates)
    (hrows : ∀ c ∈ chosen, ∃ row, rows c.memoryID = some row ∧ row.Loaded agentID c) :
    (∃ rows', applySupersessions agentID newMemoryID candidates closedAt (chosen.map (·.memoryID)) rows = .ok rows') ↔
      ∀ c ∈ chosen, c.interval.validFrom < closedAt c.memoryID := by
  induction chosen generalizing rows with
  | nil => exact ⟨fun _ _ hc => absurd hc not_mem_nil, fun _ => ⟨rows, rfl⟩⟩
  | cons c chosen ih =>
    obtain ⟨row, hrow, hload⟩ := hrows c mem_cons_self
    obtain ⟨closed, happly⟩ := applySupersession_eq (closedAt c.memoryID) hrow (hload.updatable newMemoryID)
      (by rw [hload.validFrom, hload.validUntil]; exact c.interval.nonempty)
    have hrev := observedRevision_eq hids (hsub.subset mem_cons_self)
    rw [applySupersessions, map_cons, foldlM_cons, hrev]
    simp only [happly, hload.validFrom, forall_mem_cons]
    split
    case isFalse hlate =>
      constructor
      · rintro ⟨_, h⟩
        cases h
      · exact fun h => absurd h.1 hlate
    case isTrue hearly =>
      -- the other targets are other rows
      have hne : ∀ d ∈ chosen, d.memoryID ≠ c.memoryID := by
        have hnodup := (hsub.map (·.memoryID)).nodup hids
        rw [map_cons, nodup_cons] at hnodup
        exact fun d hd heq => hnodup.1 (heq ▸ mem_map_of_mem hd)
      refine (ih (sublist_of_cons_sublist hsub) fun d hd => ?_).trans ⟨fun h => ⟨hearly, h⟩, fun h => h.2⟩
      obtain ⟨row', hrow', hload'⟩ := hrows d (mem_cons_of_mem _ hd)
      exact ⟨row', by rwa [update_of_ne (hne d hd)], hload'⟩

theorem targets_eq (svc : ConflictService) (incoming : IncomingMemory) (candidates : List CandidateMemory) :
    svc.targets incoming candidates =
      (candidates.filter fun c => decide (svc.Supersedes incoming c)).map (·.memoryID) := by
  have hid : ∀ c, (svc.decideOne incoming (svc.extract incoming.content) c).1.candidateID = c.memoryID := by
    intro c
    simp only [ConflictService.decideOne, ConflictService.escalate]
    split_ifs <;> rfl
  rw [ConflictService.targets, ConflictService.decisions, filter_map, map_map]
  exact map_congr_left fun c _ => hid c

/-- The close of a superseded interval leaves it nonempty exactly when the interval has begun by the time of the close,
and the incoming write commits exactly when that holds of every memory it supersedes. -/
theorem insertActiveMemory_ok_iff (svc : ConflictService) (agentID : Uuid) (newMemoryID : Nat) (new : TemporalRow)
    (incoming : IncomingMemory) (candidates : List CandidateMemory) (closedAt : Nat → Int) (rows : Memories)
    (hnew : rows newMemoryID = none) (hids : (candidates.map (·.memoryID)).Nodup)
    (hrows : ∀ c ∈ candidates, ∃ row, rows c.memoryID = some row ∧ row.Loaded agentID c) :
    (∀ c ∈ candidates, svc.Supersedes incoming c →
      (c.interval.validFrom < closedUntil c.interval.validUntil (closedAt c.memoryID) ↔
        c.interval.validFrom < closedAt c.memoryID)) ∧
    ((∃ rows', insertActiveMemory agentID newMemoryID candidates closedAt svc new incoming rows = .ok rows') ↔
      ∀ c ∈ candidates, svc.Supersedes incoming c → c.interval.validFrom < closedAt c.memoryID) := by
  refine ⟨fun c _ _ => lt_closedUntil c.interval.nonempty, ?_⟩
  rw [insertActiveMemory, targets_eq, applySupersessions_ok_iff hids filter_sublist]
  · simp only [mem_filter, decide_eq_true_eq, and_imp]
  · intro c hc
    obtain ⟨row, hrow, hload⟩ := hrows c (mem_of_mem_filter hc)
    have hne : c.memoryID ≠ newMemoryID := by
      rintro heq
      rw [heq, hnew] at hrow
      cases hrow
    exact ⟨row, by rwa [update_of_ne hne], hload⟩

section Example

def plainService : ConflictService := ⟨id, fun _ _ => .contradicts, false⟩

theorem nonempty_closed : ∀ e ∈ some (20 : Int), (10 : Int) < e := by simp

theorem nonempty_open : ∀ e ∈ (none : Option Int), (30 : Int) < e := by simp

/-- The one candidate is valid from 10 to 20, the incoming memory from 30 on. -/
def datedCandidate : CandidateMemory := ⟨1, ['t', 'e', 'a'], ⟨10, some 20, nonempty_closed⟩, 1⟩

def datedIncoming : IncomingMemory := ⟨['t', 'e', 'a'], ⟨30, none, nonempty_open⟩⟩

def datedRow (id : Nat) : Option TemporalRow :=
  if id = 1 then some ⟨⟨7, none, .active, none, false, false, 1⟩, 10, some 20⟩ else none

def laterRow : TemporalRow := ⟨⟨7, none, .active, none, false, false, 1⟩, 30, none⟩

theorem datedRow_loaded : ∀ c ∈ [datedCandidate], ∃ row, datedRow c.memoryID = some row ∧ row.Loaded 7 c := by
  simp only [mem_singleton, forall_eq]
  exact ⟨_, rfl, fun _ => rfl, rfl, rfl⟩

theorem insertActiveMemory_ok_iff_begun : plainService.Supersedes datedIncoming datedCandidate ∧
    ∃ rows', insertActiveMemory 7 2 [datedCandidate] (fun _ => 15) plainService laterRow datedIncoming datedRow =
      .ok rows' :=
  ⟨by decide, (insertActiveMemory_ok_iff plainService 7 2 laterRow datedIncoming [datedCandidate] (fun _ => 15) datedRow
    rfl (by simp) datedRow_loaded).2.mpr (by simp [datedCandidate])⟩

/-- At time 0 the candidate has not begun. -/
theorem supersession_of_future_rejected : plainService.Supersedes datedIncoming datedCandidate ∧
    insertActiveMemory 7 2 [datedCandidate] (fun _ => 0) plainService laterRow datedIncoming datedRow =
      .error .integrity :=
  ⟨by decide, rfl⟩

end Example

end IbexHarness.Memory
