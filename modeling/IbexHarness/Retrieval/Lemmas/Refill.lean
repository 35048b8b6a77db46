import IbexHarness.Retrieval.Lemmas.Pages
import Mathlib.Data.Fintype.EquivFin
import Mathlib.Tactic.IntervalCases

/-! Requests whose page is made of two rows: one whose short page is refilled, and one with a small reranked window. -/

namespace IbexHarness.Retrieval

open Lib List Service Dict RankedCandidate

variable {γ : Type} {dbs : Nat → Db γ} {a b : MemoryRow γ} {g : Uuid} {i j : Nat}

def mergingService (a : Uuid) (rerankMax : Option Nat) : Service γ where
  hybridEnabled := true
  fallbackEnabled := true
  conflictSuppressionEnabled := true
  rerankEnabled := rerankMax.isSome
  rerankMaxCandidates := rerankMax.getD 0
  rerankClient := some fun _ => none
  rrfK := 1
  relevanceFloor := 0
  compositeScore row _ := if row.id = a then 1 else 0
  piiPresent _ := false

/-- The channels find `a`, `b` and an id `g` of no memory, which both of them rank. -/
def refilledQuery (a b g : Uuid) : FindSimilarQuery where
  limit := 2
  minConfidence := 0
  searchable := true
  vectorHits := [(a, 1), (g, 1)]
  vectorHits_le := le_rfl
  fullTextRows n := [⟨g, 1⟩, ⟨b, 1⟩].take n
  fullTextRows_le _ := List.length_take_le ..

def fullPageQuery (a b : Uuid) : FindSimilarQuery where
  limit := 2
  minConfidence := 0
  searchable := true
  vectorHits := [(a, 1), (b, 1)]
  vectorHits_le := le_rfl
  fullTextRows _ := []
  fullTextRows_le _ := Nat.zero_le _

theorem fuseCandidates_refilled {a b : Uuid} (hab : a ≠ b) (hga : g ≠ a) (hgb : g ≠ b) :
    fuseCandidates [⟨a, 1, .vector⟩, ⟨g, 1, .vector⟩] [⟨g, 1, .fullText⟩, ⟨b, 1, .fullText⟩] 1 =
      [⟨g, 1, .vector⟩, ⟨a, 1, .vector⟩, ⟨b, 1, .fullText⟩] := by
  have hsg : rrfScore [[a, g], [g, b]] 1 g = 5 / 6 := by simp [rrfScore, hga.symm, hgb.symm]; norm_num
  have hsa : rrfScore [[a, g], [g, b]] 1 a = 1 / 2 := by simp [rrfScore, hga, hab.symm]; norm_num
  have hsb : rrfScore [[a, g], [g, b]] 1 b = 1 / 3 := by simp [rrfScore, hgb, hab]; norm_num
  have hfused : reciprocalRankFusion [[a, g], [g, b]] 1 = [g, a, b] := by
    have hids : [[a, g], [g, b]].flatten.eraseDups = [a, g, b] := by
      simp [eraseDups_cons, hga, hab.symm, hgb.symm]
    rw [reciprocalRankFusion, hids]
    simp only [insertionSort_cons, insertionSort_nil, List.orderedInsert]
    rw [if_pos (.inl (by rw [hsg, hsb]; norm_num)), List.orderedInsert, if_neg (by rw [hsg, hsa]; norm_num),
      List.orderedInsert, if_pos (.inl (by rw [hsa, hsb]; norm_num))]
  simp [fuseCandidates, hfused, Dict.setDefault, Dict.contains, Dict.get?, hab, hga.symm, hgb]

theorem fuseCandidates_fullPage {a b : Uuid} (hab : a ≠ b) :
    fuseCandidates [⟨a, 1, .vector⟩, ⟨b, 1, .vector⟩] [] 1 = [⟨a, 1, .vector⟩, ⟨b, 1, .vector⟩] := by
  have hsa : rrfScore [[a, b], []] 1 a = 1 / 2 := by simp [rrfScore, hab.symm]; norm_num
  have hsb : rrfScore [[a, b], []] 1 b = 1 / 3 := by simp [rrfScore, hab]; norm_num
  have hfused : reciprocalRankFusion [[a, b], []] 1 = [a, b] := by
    have hids : [[a, b], []].flatten.eraseDups = [a, b] := by simp [eraseDups_cons, hab.symm]
    rw [reciprocalRankFusion, hids]
    simp only [insertionSort_cons, insertionSort_nil, List.orderedInsert]
    rw [if_pos (.inl (by rw [hsa, hsb]; norm_num))]
  simp [fuseCandidates, hfused, Dict.setDefault, Dict.contains, Dict.get?, hab]

def Db.hit (db : Db γ) (i : Nat) (m : MemoryRow γ) (source : SearchSource) : Hit γ :=
  ⟨m, 1, source, db.conflictGroups m.id, i⟩

@[simp] theorem Db.id_hit {db : Db γ} {m : MemoryRow γ} {source : SearchSource} : (db.hit i m source).id = m.id := rfl

theorem filterMap_eq_singleton {α β κ : Type} {key : α → κ} {f : α → Option β} {l : List α} {x : α} {y : β}
    (hnodup : (l.map key).Nodup) (hx : x ∈ l) (hy : f x = some y) (hne : ∀ z ∈ l, key z ≠ key x → f z = none) :
    l.filterMap f = [y] := by
  induction l with
  | nil => cases hx
  | cons z l ih =>
    obtain ⟨hz, hl⟩ := nodup_cons.mp hnodup
    rcases mem_cons.mp hx with rfl | hx
    · have hrest : l.filterMap f = [] := by
        refine filterMap_eq_nil_iff.mpr fun z hzl => hne z (mem_cons_of_mem _ hzl) fun heq => ?_
        exact hz (heq ▸ mem_map_of_mem hzl)
      rw [filterMap_cons_some hy, hrest]
    · have hzx : key z ≠ key x := fun heq => hz (heq ▸ mem_map_of_mem hx)
      rw [filterMap_cons_none (hne z mem_cons_self hzx)]
      exact ih hl hx fun z hzl => hne z (mem_cons_of_mem _ hzl)

variable {db : Db γ} {m : MemoryRow γ} {source : SearchSource} {candidates : List RankedCandidate}

section

variable (hm : m ∈ db.memories) (he : db.eligible 0 m = true)
include hm he

theorem hydrateHits_eq_singleton (hc : get? memoryID (update memoryID [] candidates) m.id = some ⟨m.id, 1, source⟩)
    (hne : ∀ m' ∈ db.memories, m'.id ≠ m.id →
      get? memoryID (update memoryID [] candidates) m'.id = none) :
    db.hydrateHits i candidates 0 = [db.hit i m source] := by
  refine filterMap_eq_singleton db.primaryKey hm ?_ fun m' hm' hid => ?_
  · simp [he, hc, Db.hit]
  · simp [hne m' hm' hid]

theorem hydrateHits_single : db.hydrateHits i [⟨m.id, 1, source⟩] 0 = [db.hit i m source] := by
  refine hydrateHits_eq_singleton hm he ?_ fun m' hm' hid => ?_
  · simp [Dict.update, Dict.set, Dict.contains, Dict.get?]
  · simp [Dict.update, Dict.set, Dict.contains, Dict.get?, hid.symm]

theorem hydrateHits_pair (hg : ∀ m' ∈ db.memories, m'.id ≠ g) :
    db.hydrateHits i [⟨g, 1, .vector⟩, ⟨m.id, 1, source⟩] 0 = [db.hit i m source] := by
  have hgm := hg m hm
  refine hydrateHits_eq_singleton hm he ?_ fun m' hm' hid => ?_
  · simp [Dict.update, Dict.set, Dict.contains, Dict.get?, hgm.symm]
  · simp [Dict.update, Dict.set, Dict.contains, Dict.get?, hgm.symm, hid.symm, (hg m' hm').symm]

end

theorem hydrateHits_ghost (hg : ∀ m' ∈ db.memories, m'.id ≠ g) :
    db.hydrateHits i [⟨g, 1, .vector⟩] 0 = ([] : List (Hit γ)) := by
  refine filterMap_eq_nil_iff.mpr fun m hm => ?_
  simp [Dict.update, Dict.set, Dict.contains, Dict.get?, (hg m hm).symm]

/-! ## Pages of two rows -/

section Pages

variable {A B : Hit γ} {r : Option Nat} {guard : PiiReadGuard} {carried : List (Hit γ)}
  {q : FindSimilarQuery}

theorem collapse_two (h : Apart A B) : (mergingService a.id r).collapse [A, B] = [A, B] := by
  have hb : ∀ g ∈ B.conflictGroups, g ∉ A.conflictGroups := fun g hb ha => h ha hb
  simpa [collapse, mergingService, collapseConflictPairs, collapseFrom] using hb

section

variable (hA : A.id = a.id)
include hA

theorem rank_one (hga : g ≠ a.id) :
    (mergingService a.id r).rankHydratedHits [⟨g, 1, .vector⟩, ⟨a.id, 1, .vector⟩] [A] none = [A] := by
  simp [rankHydratedHits, mergingService, Dict.update, Dict.set, Dict.contains, Dict.get?, relevanceFor,
    relevanceForComposite, hA, hga]

theorem allow_one (hguard : guard = ⟨[], []⟩ ∨ guard = ⟨[a.id], [a.id]⟩) :
    (mergingService a.id r).allow guard [A] = (⟨[a.id], [a.id]⟩, [A]) := by
  rcases hguard with rfl | rfl <;> simp [allow, mergingService, hA]

variable (hB : B.id = b.id) (hab : a.id ≠ b.id)
include hB hab

theorem rank_two {x y : RankedCandidate} (hca : get? memoryID (update memoryID [] candidates) a.id = some x)
    (hcb : get? memoryID (update memoryID [] candidates) b.id = some y)
    (hra : 0 ≤ relevanceForComposite x) (hrb : 0 ≤ relevanceForComposite y) :
    (mergingService a.id r).rankHydratedHits candidates [A, B] none = [A, B] := by
  have hscore : ∀ h : Hit γ, (mergingService a.id r).compositeScore h.row = fun _ => if h.id = a.id then 1 else 0 :=
    fun _ => rfl
  have hfloor : (mergingService (γ := γ) a.id r).relevanceFloor = 0 := rfl
  have hbefore : scoredBefore ((1 : Rat), A) (0, B) = true := by simp [scoredBefore]
  simp [rankHydratedHits, relevanceFor, hA, hB, hab.symm, hca, hcb, hscore, hfloor, hra, hrb, hbefore]

theorem rank_refilled (hga : g ≠ a.id) (hgb : g ≠ b.id) :
    (mergingService a.id r).rankHydratedHits [⟨g, 1, .vector⟩, ⟨a.id, 1, .vector⟩, ⟨b.id, 1, .fullText⟩] [A, B] none =
      [A, B] := by
  refine rank_two (x := ⟨a.id, 1, .vector⟩) (y := ⟨b.id, 1, .fullText⟩) hA hB hab ?_ ?_ zero_le_one
    (by norm_num [relevanceForComposite, ftsCompositeRelevance])
  · simp [Dict.update, Dict.set, Dict.contains, Dict.get?, hab, hga, hgb]
  · simp [Dict.update, Dict.set, Dict.contains, Dict.get?, hab, hga, hgb]

theorem rank_fullPage :
    (mergingService a.id r).rankHydratedHits [⟨a.id, 1, .vector⟩, ⟨b.id, 1, .vector⟩] [A, B] none = [A, B] := by
  refine rank_two (x := ⟨a.id, 1, .vector⟩) (y := ⟨b.id, 1, .vector⟩) hA hB hab ?_ ?_ zero_le_one zero_le_one
  · simp [Dict.update, Dict.set, Dict.contains, Dict.get?, hab]
  · simp [Dict.update, Dict.set, Dict.contains, Dict.get?, hab]

theorem allow_two : ((mergingService a.id r).allow ⟨[a.id], [a.id]⟩ [A, B]).2 = [A, B] := by
  simp [allow, mergingService, hA, hB, hab.symm]

theorem update_two : Dict.update Hit.id [A] [B] = [A, B] := by
  simp [Dict.update, Dict.set, Dict.contains, hA, hB, hab]

theorem rankFusedWindow_refilled (hga : g ≠ a.id) (hgb : g ≠ b.id) (hapart : Apart A B)
    (hguard : guard = ⟨[], []⟩ ∨ guard = ⟨[a.id], [a.id]⟩) (hlimit : q.limit = 2)
    (hfirst : update Hit.id carried
      (hydrateMissing dbs q 1 [⟨g, 1, .vector⟩, ⟨a.id, 1, .vector⟩] carried) = [A])
    (hrefill : hydrateMissing dbs q 2 [⟨b.id, 1, .fullText⟩] [A] = [B]) :
    (mergingService a.id r).rankFusedWindow dbs q
      [⟨g, 1, .vector⟩, ⟨a.id, 1, .vector⟩, ⟨b.id, 1, .fullText⟩] carried guard = [A, B] := by
  have hone : (mergingService a.id r).collapse [A] = [A] := by
    simp [collapse, mergingService, collapseConflictPairs, collapseFrom]
  have hupdate := update_two hA hB hab
  simp [rankFusedWindow, hlimit, hfirst, rank_one hA hga, allow_one hA hguard, hone, hrefill, hupdate,
    rank_refilled hA hB hab hga hgb, allow_two hA hB hab, collapse_two hapart]

theorem rankFusedWindow_fullPage (hapart : Apart A B) (hlimit : q.limit = 2)
    (hfirst : hydrateMissing dbs q 1 [⟨a.id, 1, .vector⟩, ⟨b.id, 1, .vector⟩] [A] = [B]) :
    (mergingService a.id r).rankFusedWindow dbs q [⟨a.id, 1, .vector⟩, ⟨b.id, 1, .vector⟩] [A] ⟨[a.id], [a.id]⟩ =
      [A, B] := by
  simp [rankFusedWindow, hlimit, hfirst, update_two hA hB hab, rank_fullPage hA hB hab, allow_two hA hB hab,
    collapse_two hapart]

end

end Pages

theorem exists_unused_id (dbs : Nat → Db γ) : ∃ g : Uuid, ∀ i ≤ 2, ∀ m ∈ (dbs i).memories, m.id ≠ g := by
  obtain ⟨g, hg⟩ := Infinite.exists_notMem_finset
    ((((dbs 0).memories ++ (dbs 1).memories ++ (dbs 2).memories).map MemoryRow.id).toFinset)
  simp only [map_append, mem_toFinset, mem_append, mem_map, not_or, not_exists, not_and] at hg
  refine ⟨g, fun i hi m hm => ?_⟩
  interval_cases i
  exacts [hg.1.1 m hm, hg.1.2 m hm, hg.2 m hm]

/-- A page that shows a row of the statement `i` and a row of the statement `j`. -/
def Merges (dbs : Nat → Db γ) (A B : Hit γ) : Prop :=
  ∃ (sv : Service γ) (q : FindSimilarQuery), sv.conflictSuppressionEnabled = true ∧ sv.findSimilar dbs q = some [A, B]

theorem fused_refilledQuery (hab : a.id ≠ b.id) (hga : g ≠ a.id) (hgb : g ≠ b.id) :
    fuseCandidates (vectorCandidates (refilledQuery a.id b.id g))
      (clampedCandidates (fullTextSearch (refilledQuery a.id b.id g) 2 []) 2) 1 =
      [⟨g, 1, .vector⟩, ⟨a.id, 1, .vector⟩, ⟨b.id, 1, .fullText⟩] := by
  rw [← fuseCandidates_refilled hab hga hgb]
  simp [vectorCandidates, clampedCandidates, fullTextSearch, refilledQuery]

section Requests

variable {q : FindSimilarQuery} {known : List (Hit γ)}

section

variable (hq : q.minConfidence = 0)
include hq

theorem hydrateMissing_single (hm : m ∈ (dbs i).memories)
    (he : (dbs i).eligible 0 m = true) (hknown : contains Hit.id known m.id = false) :
    hydrateMissing dbs q i [⟨m.id, 1, source⟩] known = [(dbs i).hit i m source] := by
  simpa [hydrateMissing, hq, hknown] using hydrateHits_single hm he

theorem hydrateMissing_pair (hm : m ∈ (dbs i).memories)
    (he : (dbs i).eligible 0 m = true) (hg : ∀ m' ∈ (dbs i).memories, m'.id ≠ g) :
    hydrateMissing dbs q i [⟨g, 1, .vector⟩, ⟨m.id, 1, source⟩] [] = [(dbs i).hit i m source] := by
  simpa [hydrateMissing, hq, Dict.contains] using hydrateHits_pair hm he hg

theorem hydrateMissing_ghost (hg : ∀ m' ∈ (dbs i).memories, m'.id ≠ g) {A : Hit γ}
    (hA : A.id = m.id) (hga : g ≠ m.id) :
    hydrateMissing dbs q i [⟨g, 1, .vector⟩, ⟨m.id, 1, source⟩] [A] = [] := by
  simpa [hydrateMissing, hq, Dict.contains, hA, hga.symm] using hydrateHits_ghost hg

theorem rankReranked_one {n : Nat} {fused : List RankedCandidate}
    (hrows : (dbs 0).hydrateHits 0 (fused.take n) 0 = [(dbs 0).hit 0 a .vector]) :
    (mergingService a.id (some n)).rankReranked dbs q (fun _ => none) fused =
      some ((mergingService a.id (some n)).rankFusedWindow dbs q fused [(dbs 0).hit 0 a .vector] ⟨[a.id], [a.id]⟩) := by
  have hmax : (mergingService (γ := γ) a.id (some n)).rerankMaxCandidates = n := rfl
  have hallow := allow_one (r := some n) (a := a) (A := (dbs 0).hit 0 a .vector) rfl (.inl rfl)
  simp [rankReranked, rerankScores, hmax, hq, hrows, hallow]

end

theorem merges_refill (ha : a ∈ (dbs 1).memories) (hea : (dbs 1).eligible 0 a = true) (hb : b ∈ (dbs 2).memories)
    (heb : (dbs 2).eligible 0 b = true) (hab : a.id ≠ b.id)
    (hapart : Apart ((dbs 1).hit 1 a .vector) ((dbs 2).hit 2 b .fullText)) :
    Merges dbs ((dbs 1).hit 1 a .vector) ((dbs 2).hit 2 b .fullText) := by
  obtain ⟨g, hg⟩ := exists_unused_id dbs
  have hga := (hg 1 (by decide) a ha).symm
  have hgb := (hg 2 le_rfl b hb).symm
  have hfirst : update Hit.id [] (hydrateMissing dbs (refilledQuery a.id b.id g) 1
      [⟨g, 1, .vector⟩, ⟨a.id, 1, .vector⟩] []) = [(dbs 1).hit 1 a .vector] := by
    rw [hydrateMissing_pair rfl ha hea (hg 1 (by decide))]
    rfl
  have hpage := rankFusedWindow_refilled Db.id_hit Db.id_hit hab hga hgb hapart (.inl rfl) rfl hfirst
    (hydrateMissing_single rfl hb heb (by simp [Dict.contains, hab])) (r := none)
  rw [← fused_refilledQuery hab hga hgb] at hpage
  exact ⟨mergingService a.id none, refilledQuery a.id b.id g, rfl, congrArg some hpage⟩

theorem merges_rerank_refill (ha : a ∈ (dbs 0).memories) (hea : (dbs 0).eligible 0 a = true)
    (hb : b ∈ (dbs 2).memories) (heb : (dbs 2).eligible 0 b = true) (hab : a.id ≠ b.id)
    (hapart : Apart ((dbs 0).hit 0 a .vector) ((dbs 2).hit 2 b .fullText)) :
    Merges dbs ((dbs 0).hit 0 a .vector) ((dbs 2).hit 2 b .fullText) := by
  obtain ⟨g, hg⟩ := exists_unused_id dbs
  have hga := (hg 0 (by decide) a ha).symm
  have hgb := (hg 2 le_rfl b hb).symm
  have hfirst : update Hit.id [(dbs 0).hit 0 a .vector] (hydrateMissing dbs (refilledQuery a.id b.id g) 1
      [⟨g, 1, .vector⟩, ⟨a.id, 1, .vector⟩] [(dbs 0).hit 0 a .vector]) = [(dbs 0).hit 0 a .vector] := by
    rw [hydrateMissing_ghost rfl (hg 1 (by decide)) Db.id_hit hga]
    rfl
  have hpage := rankFusedWindow_refilled Db.id_hit Db.id_hit hab hga hgb hapart (.inr rfl) rfl hfirst
    (hydrateMissing_single rfl hb heb (by simp [Dict.contains, hab])) (r := some 2)
  refine ⟨mergingService a.id (some 2), refilledQuery a.id b.id g, rfl, ?_⟩
  change (mergingService a.id (some 2)).rankReranked dbs _ _ (fuseCandidates (vectorCandidates _)
    (clampedCandidates (fullTextSearch (refilledQuery a.id b.id g) 2 []) 2) 1) = _
  rw [fused_refilledQuery hab hga hgb, rankReranked_one rfl (hydrateHits_pair ha hea (hg 0 (by decide))), hpage]

theorem merges_rerank (ha : a ∈ (dbs 0).memories) (hea : (dbs 0).eligible 0 a = true)
    (hb : b ∈ (dbs 1).memories) (heb : (dbs 1).eligible 0 b = true) (hab : a.id ≠ b.id)
    (hapart : Apart ((dbs 0).hit 0 a .vector) ((dbs 1).hit 1 b .vector)) :
    Merges dbs ((dbs 0).hit 0 a .vector) ((dbs 1).hit 1 b .vector) := by
  have hfirst : hydrateMissing dbs (fullPageQuery a.id b.id) 1 [⟨a.id, 1, .vector⟩, ⟨b.id, 1, .vector⟩]
      [(dbs 0).hit 0 a .vector] = [(dbs 1).hit 1 b .vector] := by
    have hq : (fullPageQuery a.id b.id).minConfidence = 0 := rfl
    simpa [hydrateMissing, Dict.contains, hab, hq] using hydrateHits_single hb heb
  have hpage := rankFusedWindow_fullPage Db.id_hit Db.id_hit hab hapart rfl hfirst (r := some 1)
  refine ⟨mergingService a.id (some 1), fullPageQuery a.id b.id, rfl, ?_⟩
  change (mergingService a.id (some 1)).rankReranked dbs _ _
    (fuseCandidates [⟨a.id, 1, .vector⟩, ⟨b.id, 1, .vector⟩] [] 1) = _
  rw [fuseCandidates_fullPage hab, rankReranked_one rfl (hydrateHits_single ha hea), hpage]

end Requests

end IbexHarness.Retrieval
