import IbexHarness.Lib.Text
import IbexHarness.Lib.Dict
import Mathlib.Algebra.Ring.Rat
import Mathlib.Data.List.Sort
import Mathlib.Algebra.Order.Ring.Unbundled.Rat

/-! `MemoryReadRepository.find_similar` of `services/memory`, for one organization. -/

namespace IbexHarness.Retrieval

open Lib

/-! ## Rows -/

inductive EscalationStatus where
  | pending
  | resolved
  | dismissed
deriving DecidableEq

structure Escalation where
  id : Uuid
  newMemoryID : Uuid
  candidateMemoryID : Uuid
  status : EscalationStatus

/-- `memories`, with the columns that hydration reads. `content` is the text and all that the composite score reads. -/
structure MemoryRow (γ : Type) where
  id : Uuid
  content : γ
  confidence : Rat
  active : Bool
  deleted : Bool
  tombstoned : Bool
  expiresAt : Option Nat
  validFrom : Nat
  validUntil : Option Nat
deriving DecidableEq

/-- The committed rows at one moment. The memories of an escalation are there and are two. -/
structure Db (γ : Type) where
  now : Nat
  memories : List (MemoryRow γ)
  escalations : List Escalation
  primaryKey : (memories.map (·.id)).Nodup
  newMemory : ∀ e ∈ escalations, ∃ m ∈ memories, m.id = e.newMemoryID
  candidateMemory : ∀ e ∈ escalations, ∃ m ∈ memories, m.id = e.candidateMemoryID
  distinctMemories : ∀ e ∈ escalations, e.newMemoryID ≠ e.candidateMemoryID

inductive SearchSource where
  | vector
  | fullText
deriving DecidableEq

structure RankedCandidate where
  memoryID : Uuid
  score : Rat
  source : SearchSource

/-- `HydratedHit` and its `MemorySearchResult`; `readAt` is the statement that read the conflict groups. -/
structure Hit (γ : Type) where
  row : MemoryRow γ
  similarity : Rat
  source : SearchSource
  conflictGroups : List Uuid
  readAt : Nat
deriving DecidableEq

def Hit.id {γ : Type} (h : Hit γ) : Uuid := h.row.id

variable {γ : Type}

/-! ## Statements -/

namespace Db

def conflictGroups (db : Db γ) (m : Uuid) : List Uuid :=
  (db.escalations.filter fun e => e.status = .pending && (e.newMemoryID = m || e.candidateMemoryID = m)).map (·.id)

def eligible (db : Db γ) (minConfidence : Rat) (m : MemoryRow γ) : Bool :=
  minConfidence ≤ m.confidence && m.active && !m.deleted && !m.tombstoned && m.expiresAt.all (db.now < ·) &&
    m.validFrom ≤ db.now && m.validUntil.all (db.now < ·)

def hydrateHits (db : Db γ) (i : Nat) (candidates : List RankedCandidate) (minConfidence : Rat) : List (Hit γ) :=
  let scoreByID := Dict.update RankedCandidate.memoryID [] candidates
  db.memories.filterMap fun m =>
    if db.eligible minConfidence m then
      (Dict.get? RankedCandidate.memoryID scoreByID m.id).map fun c =>
        ⟨m, c.score, c.source, db.conflictGroups m.id, i⟩
    else none

/-- `_conflict_groups_snapshot`, as the statement `i` of the request. -/
def conflictGroupsSnapshot (db : Db γ) (i : Nat) (hydrated : List (Hit γ)) : List (Hit γ) :=
  hydrated.map fun h =>
    let groups := if db.memories.any (·.id = h.id) then db.conflictGroups h.id else []
    { h with conflictGroups := groups, readAt := i }

end Db

/-! ## Ranking -/

structure Service (γ : Type) where
  hybridEnabled : Bool
  fallbackEnabled : Bool
  conflictSuppressionEnabled : Bool
  rerankEnabled : Bool
  rerankMaxCandidates : Nat
  /-- the scores of the documents, unless the call fails or takes too long -/
  rerankClient : Option (List γ → Option (List Rat))
  rrfK : Nat
  relevanceFloor : Rat
  compositeScore : MemoryRow γ → Rat → Rat
  /-- `tier1_structured_pii_present` -/
  piiPresent : γ → Bool

structure FullTextHit where
  memoryID : Uuid
  rank : Rat

/-- `FindSimilarQuery`, with what the two channels find for it within their limits. -/
structure FindSimilarQuery where
  limit : Nat
  minConfidence : Rat
  /-- `is_searchable_query` of the text -/
  searchable : Bool
  vectorHits : List (Uuid × Rat)
  vectorHits_le : vectorHits.length ≤ limit
  fullTextRows : Nat → List FullTextHit
  fullTextRows_le : ∀ n, (fullTextRows n).length ≤ n

def FindSimilarQuery.valid (q : FindSimilarQuery) : Bool :=
  1 ≤ q.limit && 0 ≤ q.minConfidence && q.minConfidence ≤ 1

def ftsCompositeRelevance : Rat := 1 / 2

def relevanceForComposite (c : RankedCandidate) : Rat :=
  match c.source with
  | .vector => c.score
  | .fullText => ftsCompositeRelevance

/-- `_relevance_for`, with the relevance overrides of the reranker. -/
def relevanceFor (c : RankedCandidate) (overrides : Option (List (Uuid × Rat))) : Rat :=
  match overrides.bind (Dict.get? Prod.fst · c.memoryID) with
  | none => relevanceForComposite c
  | some (_, override) => min 1 (max 0 override)

def scoredBefore (x y : Rat × Hit γ) : Bool := y.1 < x.1 || (x.1 = y.1 && x.2.id ≤ y.2.id)

def mergeCandidates (vector fts : List RankedCandidate) : List RankedCandidate :=
  fts.foldl (Dict.setDefault RankedCandidate.memoryID) (Dict.update RankedCandidate.memoryID [] vector)

def rrfScore (channels : List (List Uuid)) (k : Nat) (m : Uuid) : Rat :=
  (channels.map fun ranked =>
    ((ranked.zipIdx 1).map fun (m', position) => if m' = m then 1 / ((k : Rat) + position) else 0).sum).sum

def reciprocalRankFusion (channels : List (List Uuid)) (k : Nat) : List Uuid :=
  channels.flatten.eraseDups.insertionSort fun x y =>
    rrfScore channels k y < rrfScore channels k x ∨ (rrfScore channels k x = rrfScore channels k y ∧ x ≤ y)

def fuseCandidates (vector fts : List RankedCandidate) (k : Nat) : List RankedCandidate :=
  let byID := (vector ++ fts).foldl (Dict.setDefault RankedCandidate.memoryID) []
  (reciprocalRankFusion [vector.map (·.memoryID), fts.map (·.memoryID)] k).filterMap
    (Dict.get? RankedCandidate.memoryID byID)

/-! ## Suppression -/

/-- `collapse_conflict_pairs`, with the groups of the hits that are kept. -/
def collapseFrom (keptGroups : List Uuid) : List (Hit γ) → List (Hit γ)
  | [] => []
  | h :: hs =>
    if h.conflictGroups.any (keptGroups.contains ·) then collapseFrom keptGroups hs
    else h :: collapseFrom (keptGroups ++ h.conflictGroups) hs

def collapseConflictPairs (hits : List (Hit γ)) : List (Hit γ) := collapseFrom [] hits

structure PiiReadGuard where
  evaluated : List Uuid
  allowed : List Uuid

namespace Service

variable (sv : Service γ)

def rankHydratedHits (candidates : List RankedCandidate) (hydrated : List (Hit γ))
    (overrides : Option (List (Uuid × Rat))) : List (Hit γ) :=
  let candidateByID := Dict.update RankedCandidate.memoryID [] candidates
  let scored := hydrated.filterMap fun h =>
    (Dict.get? RankedCandidate.memoryID candidateByID h.id).bind fun c =>
      let relevance := relevanceFor c overrides
      if sv.relevanceFloor ≤ relevance then some (sv.compositeScore h.row relevance, h) else none
  (scored.insertionSort fun x y => scoredBefore x y).map Prod.snd

def allow (guard : PiiReadGuard) (hits : List (Hit γ)) : PiiReadGuard × List (Hit γ) :=
  let fresh := hits.filter fun h => !guard.evaluated.contains h.id
  let passed := fresh.filter fun h => !sv.piiPresent h.row.content
  let guard := ⟨guard.evaluated ++ fresh.map Hit.id, guard.allowed ++ passed.map Hit.id⟩
  (guard, hits.filter fun h => guard.allowed.contains h.id)

def collapse (hits : List (Hit γ)) : List (Hit γ) :=
  if sv.conflictSuppressionEnabled then collapseConflictPairs hits else hits

/-! ## Requests -/

variable (db : Nat → Db γ) (q : FindSimilarQuery)

def fullTextSearch (limit : Nat) (exclude : List Uuid) : List FullTextHit :=
  if limit < 1 || !q.searchable then []
  else ((q.fullTextRows limit).filter fun h => !exclude.contains h.memoryID).take limit

def clampedCandidates (hits : List FullTextHit) (cap : Nat) : List RankedCandidate :=
  (hits.take cap).map fun h => ⟨h.memoryID, min 1 (max 0 h.rank), .fullText⟩

def vectorCandidates : List RankedCandidate := q.vectorHits.map fun (m, similarity) => ⟨m, similarity, .vector⟩

def hydrateMissing (i : Nat) (candidates : List RankedCandidate) (known : List (Hit γ)) : List (Hit γ) :=
  (db i).hydrateHits i (candidates.filter fun c => !Dict.contains Hit.id known c.memoryID) q.minConfidence

/-- `_rank_fused_window`, whose hydrations are the statements 1 and 2. -/
def rankFusedWindow (fused : List RankedCandidate) (carried : List (Hit γ)) (guard : PiiReadGuard) : List (Hit γ) :=
  let admitted := fused.take q.limit
  let rows := Dict.update Hit.id carried (hydrateMissing db q 1 admitted carried)
  let (guard, allowed) := sv.allow guard (sv.rankHydratedHits admitted rows none)
  let kept := sv.collapse allowed
  let remaining := fused.drop q.limit
  if q.limit ≤ kept.length || remaining.isEmpty then kept.take q.limit
  else
    let rows := Dict.update Hit.id rows (hydrateMissing db q 2 remaining rows)
    let (_, allowed) := sv.allow guard (sv.rankHydratedHits fused rows none)
    (sv.collapse allowed).take q.limit

/-- The overrides, none if nothing was reranked, and the rows that the guard allows. A reranker that
returns another number of scores is an error. -/
def rerankScores (client : List γ → Option (List Rat)) (window : List RankedCandidate) (hydrated : List (Hit γ))
    (guard : PiiReadGuard) : Option (Option (List (Uuid × Rat)) × List Uuid × PiiReadGuard) :=
  let (guard, allowedHits) := sv.allow guard hydrated
  let allowed := allowedHits.map Hit.id
  let hits := (window.filter fun c => allowed.contains c.memoryID).filterMap (Dict.get? Hit.id hydrated ·.memoryID)
  if hits.length < 2 then some (none, allowed, guard)
  else match client (hits.map (·.row.content)) with
    | none => some (none, allowed, guard)
    | some scores =>
      if scores.length = hits.length then some (some ((hits.map Hit.id).zip scores), allowed, guard) else none

def rankReranked (client : List γ → Option (List Rat)) (fused : List RankedCandidate) : Option (List (Hit γ)) :=
  let window := fused.take sv.rerankMaxCandidates
  let hydrated := (db 0).hydrateHits 0 window q.minConfidence
  (sv.rerankScores client window hydrated ⟨[], []⟩).map fun (overrides, allowed, guard) =>
    match overrides with
    | none => sv.rankFusedWindow db q fused hydrated guard
    | some overrides =>
      let candidates := window.filter fun c => allowed.contains c.memoryID
      let ranked := (sv.collapse (sv.rankHydratedHits candidates hydrated (some overrides))).take q.limit
      -- the relevance floor emptied the page
      if ranked.isEmpty then sv.rankFusedWindow db q fused hydrated guard else ranked

def findSimilarHybrid : Option (List (Hit γ)) :=
  if sv.rrfK < 1 then none
  else
    let fts := clampedCandidates (fullTextSearch q q.limit []) q.limit
    let fused := fuseCandidates (vectorCandidates q) fts sv.rrfK
    match sv.rerankEnabled, sv.rerankClient with
    | true, some client => sv.rankReranked db q client fused
    | _, _ => some (sv.rankFusedWindow db q fused [] ⟨[], []⟩)

def supplement (vectorPage : List (Hit γ)) : List RankedCandidate :=
  if sv.fallbackEnabled && vectorPage.length < q.limit && q.searchable then
    let exclude := (vectorCandidates q).map (·.memoryID)
    clampedCandidates (fullTextSearch q (q.limit + exclude.eraseDups.length) exclude) q.limit
  else []

/-- `_find_similar_fallback`, whose hydrations are the statements 0 and 1 and whose snapshot is the statement 2. -/
def findSimilarFallback : List (Hit γ) :=
  let vector := vectorCandidates q
  let vectorHydrated := (db 0).hydrateHits 0 vector q.minConfidence
  let (guard, allowed) := sv.allow ⟨[], []⟩ (sv.rankHydratedHits vector vectorHydrated none)
  let vectorPage := (sv.collapse allowed).take q.limit
  if q.limit ≤ vectorPage.length then vectorPage
  else
    let fts := sv.supplement q vectorPage
    if fts.isEmpty then vectorPage
    else
      let ftsHydrated := (db 1).hydrateHits 1 fts q.minConfidence
      let allHydrated := Dict.update Hit.id ftsHydrated vectorHydrated
      let allHydrated :=
        if allHydrated.any fun h => !h.conflictGroups.isEmpty then (db 2).conflictGroupsSnapshot 2 allHydrated
        else allHydrated
      let (_, allowed) := sv.allow guard (sv.rankHydratedHits (mergeCandidates vector fts) allHydrated none)
      (sv.collapse allowed).take q.limit

def hybrid : Bool := sv.hybridEnabled && q.searchable

def findSimilar : Option (List (Hit γ)) :=
  if q.valid then
    if sv.hybrid q then sv.findSimilarHybrid db q else some (sv.findSimilarFallback db q)
  else none

end Service

end IbexHarness.Retrieval
