import IbexHarness.Lib.Apart
import IbexHarness.Retrieval.Repository

/-! The hits of a page carry the conflict groups that the statement which read them found, and no two of them share
one. -/

namespace IbexHarness.Retrieval

open Lib List Option

variable {γ : Type} {db : Db γ} {dbs : Nat → Db γ} {sv : Service γ} {q : FindSimilarQuery} {h x y : Hit γ}
  {hits : List (Hit γ)} {e : Escalation}

def Db.Pending (db : Db γ) (e : Escalation) : Prop := e ∈ db.escalations ∧ e.status = .pending

def Escalation.Joins (e : Escalation) (a b : Uuid) : Prop :=
  (e.newMemoryID = a ∧ e.candidateMemoryID = b) ∨ (e.newMemoryID = b ∧ e.candidateMemoryID = a)

variable {a b : Uuid} {i : Nat} {candidates : List RankedCandidate}

theorem Escalation.Joins.symm (h : e.Joins a b) : e.Joins b a := Or.symm h

theorem Db.Pending.mem_conflictGroups (hp : db.Pending e) (hj : e.Joins a b) : e.id ∈ db.conflictGroups a := by
  refine mem_map_of_mem (mem_filter.mpr ⟨hp.1, ?_⟩)
  rcases hj with ⟨ha, -⟩ | ⟨-, ha⟩ <;> simp [hp.2, ha]

theorem Db.Pending.ne (hp : db.Pending e) (hj : e.Joins a b) : a ≠ b := by
  have hne := db.distinctMemories e hp.1
  rcases hj with ⟨rfl, rfl⟩ | ⟨rfl, rfl⟩
  exacts [hne, hne.symm]

theorem Db.conflictGroups_eq_nil {m : Uuid} (hm : db.memories.any (·.id = m) = false) : db.conflictGroups m = [] := by
  have hm : ∀ r ∈ db.memories, r.id ≠ m := by simpa using hm
  refine map_eq_nil_iff.mpr (filter_eq_nil_iff.mpr fun e he => ?_)
  obtain ⟨r, hr, hnew⟩ := db.newMemory e he
  obtain ⟨r', hr', hcand⟩ := db.candidateMemory e he
  simp [← hnew, ← hcand, hm r hr, hm r' hr']

/-- The groups of the hit are those that the statement `readAt` found. -/
structure Fresh (dbs : Nat → Db γ) (h : Hit γ) : Prop where
  groups : h.conflictGroups = (dbs h.readAt).conflictGroups h.id
  readAt : h.readAt ≤ 2

structure Hydrated (dbs : Nat → Db γ) (minConfidence : Rat) (h : Hit γ) : Prop extends Fresh dbs h where
  row : h.row ∈ (dbs h.readAt).memories
  eligible : (dbs h.readAt).eligible minConfidence h.row = true

theorem mem_hydrateHits {minConfidence : Rat} (hh : h ∈ (dbs i).hydrateHits i candidates minConfidence) (hi : i ≤ 2) :
    Hydrated dbs minConfidence h ∧ h.readAt = i := by
  obtain ⟨m, hrow, hm⟩ := mem_filterMap.mp hh
  split at hm
  · rename_i heligible
    obtain ⟨c, -, rfl⟩ := map_eq_some_iff.mp hm
    exact ⟨⟨⟨rfl, hi⟩, hrow, heligible⟩, rfl⟩
  · cases hm

theorem mem_conflictGroupsSnapshot (hh : h ∈ (dbs i).conflictGroupsSnapshot i hits) (hi : i ≤ 2) :
    Fresh dbs h ∧ h.readAt = i := by
  obtain ⟨h₀, -, rfl⟩ := mem_map.mp hh
  refine ⟨⟨?_, hi⟩, rfl⟩
  dsimp only
  split
  · rfl
  · rename_i hgone
    exact (Db.conflictGroups_eq_nil (Bool.eq_false_iff.mpr hgone)).symm

/-! ## Ranking and suppression -/

theorem mem_rankHydratedHits {overrides : Option (List (Uuid × Rat))}
    (hh : h ∈ sv.rankHydratedHits candidates hits overrides) : h ∈ hits := by
  obtain ⟨⟨s, h'⟩, hs, rfl⟩ := mem_map.mp hh
  obtain ⟨h₀, hmem, hsome⟩ := mem_filterMap.mp ((mem_insertionSort _).mp hs)
  obtain ⟨c, -, hc⟩ := bind_eq_some_iff.mp hsome
  simp only [ite_none_right_eq_some, some.injEq, Prod.mk.injEq] at hc
  exact hc.2.2 ▸ hmem

theorem mem_allow {guard : PiiReadGuard} (hh : h ∈ (sv.allow guard hits).2) : h ∈ hits := (List.mem_filter.mp hh).1

def Apart (x y : Hit γ) : Prop := List.Disjoint x.conflictGroups y.conflictGroups

instance : Std.Symm (Apart (γ := γ)) := ⟨fun _ _ h _ hx hy => h hy hx⟩

theorem collapseFrom_eq (groups : List Uuid) (hits : List (Hit γ)) :
    collapseFrom groups hits = Lib.Apart.keep Hit.conflictGroups groups hits := by
  induction hits generalizing groups with
  | nil => rfl
  | cons h hs ih => rw [collapseFrom, Lib.Apart.keep, ih, ih]

theorem collapse_eq (hs : sv.conflictSuppressionEnabled = true) (hits : List (Hit γ)) :
    sv.collapse hits = Lib.Apart.keep Hit.conflictGroups [] hits := by
  rw [Service.collapse, if_pos hs, collapseConflictPairs, collapseFrom_eq]

structure Page (F : Hit γ → Prop) (page : List (Hit γ)) : Prop where
  all : ∀ h ∈ page, F h
  apart : page.Pairwise Apart

theorem mem_page {limit : Nat} (hs : sv.conflictSuppressionEnabled = true)
    (hh : h ∈ (sv.collapse hits).take limit) : h ∈ hits := by
  rw [collapse_eq hs] at hh
  exact (Lib.Apart.keep_sublist [] hits).subset (mem_of_mem_take hh)

theorem Page.of_hits {F : Hit γ → Prop} (hs : sv.conflictSuppressionEnabled = true) (hall : ∀ h ∈ hits, F h)
    (limit : Nat) : Page F ((sv.collapse hits).take limit) := by
  refine ⟨fun h hh => hall h (mem_page hs hh), ?_⟩
  rw [collapse_eq hs]
  exact (Lib.Apart.keep_pairwise [] hits).sublist (take_sublist ..)

theorem Page.not_pending {page : List (Hit γ)} (hp : Page (Fresh dbs) page) (hx : x ∈ page) (hy : y ∈ page)
    (hj : e.Joins x.id y.id) (hpx : (dbs x.readAt).Pending e) : ¬(dbs y.readAt).Pending e := by
  intro hpy
  have hne : x ≠ y := fun heq => hpx.ne hj (heq ▸ rfl)
  have happart : Apart x y := hp.apart.forall hx hy hne
  refine happart (a := e.id) ?_ ?_
  · exact (hp.all x hx).groups ▸ hpx.mem_conflictGroups hj
  · exact (hp.all y hy).groups ▸ hpy.mem_conflictGroups hj.symm

/-! ## The paths of a request -/

variable {guard : PiiReadGuard} {fused : List RankedCandidate} {carried page : List (Hit γ)}

theorem Hydrated.hydrateMissing (hc : ∀ h ∈ carried, Hydrated dbs q.minConfidence h) (hi : i ≤ 2)
    (candidates : List RankedCandidate) :
    ∀ h ∈ Dict.update Hit.id carried (Service.hydrateMissing dbs q i candidates carried),
      Hydrated dbs q.minConfidence h := by
  intro h hh
  rcases Dict.mem_update hh with hh | hh
  exacts [hc h hh, (mem_hydrateHits hh hi).1]

section

variable (hs : sv.conflictSuppressionEnabled = true)
include hs

theorem page_rankFusedWindow
    (hc : ∀ h ∈ carried, Hydrated dbs q.minConfidence h) :
    Page (Hydrated dbs q.minConfidence) (sv.rankFusedWindow dbs q fused carried guard) := by
  unfold Service.rankFusedWindow
  have hrows := Hydrated.hydrateMissing (i := 1) hc (by decide) (fused.take q.limit)
  dsimp only
  split
  · exact .of_hits hs (fun h hh => hrows h (mem_rankHydratedHits (mem_allow hh))) _
  · exact .of_hits hs (fun h hh => Hydrated.hydrateMissing hrows le_rfl _ h (mem_rankHydratedHits (mem_allow hh))) _

theorem page_rankReranked {client : List γ → Option (List Rat)}
    (h : sv.rankReranked dbs q client fused = some page) : Page (Hydrated dbs q.minConfidence) page := by
  obtain ⟨⟨overrides, allowed, guard⟩, -, rfl⟩ := map_eq_some_iff.mp h
  have hrows : ∀ h ∈ (dbs 0).hydrateHits 0 (fused.take sv.rerankMaxCandidates) q.minConfidence,
      Hydrated dbs q.minConfidence h := fun h hh => (mem_hydrateHits hh (Nat.zero_le 2)).1
  cases overrides with
  | none => exact page_rankFusedWindow hs hrows
  | some overrides =>
    dsimp only
    split
    · exact page_rankFusedWindow hs hrows
    · exact .of_hits hs (fun h hh => hrows h (mem_rankHydratedHits hh)) _

theorem page_findSimilarHybrid
    (h : sv.findSimilarHybrid dbs q = some page) : Page (Hydrated dbs q.minConfidence) page := by
  simp only [Service.findSimilarHybrid, ite_none_left_eq_some] at h
  obtain ⟨-, h⟩ := h
  split at h
  · exact page_rankReranked hs h
  · cases h
    exact page_rankFusedWindow hs fun _ => nofun

end

def OneSnapshot (hits : List (Hit γ)) : Prop := (∃ i, ∀ h ∈ hits, h.readAt = i) ∨ ∀ h ∈ hits, h.conflictGroups = []

theorem OneSnapshot.subset {hits' : List (Hit γ)} (ho : OneSnapshot hits) (hsub : ∀ h ∈ hits', h ∈ hits) :
    OneSnapshot hits' := by
  rcases ho with ⟨i, hi⟩ | hnone
  · exact .inl ⟨i, fun h hh => hi h (hsub h hh)⟩
  · exact .inr fun h hh => hnone h (hsub h hh)

theorem page_of_snapshot (hs : sv.conflictSuppressionEnabled = true)
    (hfresh : ∀ h ∈ hits, Fresh dbs h) (ho : OneSnapshot hits)
    (hpage : page = (sv.collapse (sv.allow guard (sv.rankHydratedHits candidates hits none)).2).take q.limit) :
    Page (Fresh dbs) page ∧ OneSnapshot page := by
  subst hpage
  have hmem : ∀ h ∈ (sv.allow guard (sv.rankHydratedHits candidates hits none)).2, h ∈ hits :=
    fun h hh => mem_rankHydratedHits (mem_allow hh)
  exact ⟨.of_hits hs (fun h hh => hfresh h (hmem h hh)) _, ho.subset fun h hh => hmem h (mem_page hs hh)⟩

theorem page_findSimilarFallback (hs : sv.conflictSuppressionEnabled = true) :
    Page (Fresh dbs) (sv.findSimilarFallback dbs q) ∧ OneSnapshot (sv.findSimilarFallback dbs q) := by
  have hvector : ∀ h ∈ (dbs 0).hydrateHits 0 (Service.vectorCandidates q) q.minConfidence, Fresh dbs h ∧ h.readAt = 0 :=
    fun h hh => ⟨(mem_hydrateHits hh (Nat.zero_le 2)).1.toFresh, (mem_hydrateHits hh (Nat.zero_le 2)).2⟩
  unfold Service.findSimilarFallback
  dsimp only
  split
  · exact page_of_snapshot hs (fun h hh => (hvector h hh).1) (.inl ⟨0, fun h hh => (hvector h hh).2⟩) rfl
  · split
    · exact page_of_snapshot hs (fun h hh => (hvector h hh).1) (.inl ⟨0, fun h hh => (hvector h hh).2⟩) rfl
    · split
      -- some row names an escalation: the groups are read again, at once
      case isTrue =>
        exact page_of_snapshot hs (fun h hh => (mem_conflictGroupsSnapshot hh le_rfl).1)
          (.inl ⟨2, fun h hh => (mem_conflictGroupsSnapshot hh le_rfl).2⟩) rfl
      case isFalse hnone =>
        refine page_of_snapshot hs (fun h hh => ?_) (.inr fun h hh => ?_) rfl
        · rcases Dict.mem_update hh with hh | hh
          exacts [(mem_hydrateHits hh (by decide)).1.toFresh, (hvector h hh).1]
        · by_contra hne
          exact hnone (any_eq_true.mpr ⟨h, hh, by simpa using hne⟩)

end IbexHarness.Retrieval
