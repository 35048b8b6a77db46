import IbexHarness.Retrieval.Lemmas.Pages
import IbexHarness.Retrieval.Lemmas.Refill
import Mathlib.Data.List.Perm.Subperm

/-! The refill ranks the rows of both passes together and cuts the page again. -/

namespace IbexHarness.Retrieval

section

open Lib List Service RankedCandidate Dict

variable {γ : Type} {sv : Service γ} {dbs : Nat → Db γ} {q : FindSimilarQuery} {fused candidates : List RankedCandidate}
  {carried hits : List (Hit γ)} {guard : PiiReadGuard} {h x y z : Hit γ}

def Service.compositeOf (sv : Service γ) (candidates : List RankedCandidate) (h : Hit γ) : Rat :=
  match Dict.get? RankedCandidate.memoryID (Dict.update RankedCandidate.memoryID [] candidates) h.id with
  | some c => sv.compositeScore h.row (relevanceFor c none)
  | none => 0

def Service.rankable (sv : Service γ) (candidates : List RankedCandidate) (h : Hit γ) : Bool :=
  (Dict.get? RankedCandidate.memoryID (Dict.update RankedCandidate.memoryID [] candidates) h.id).any fun c =>
    sv.relevanceFloor ≤ relevanceFor c none

def Service.RanksAbove (sv : Service γ) (candidates : List RankedCandidate) (x y : Hit γ) : Prop :=
  sv.compositeOf candidates y < sv.compositeOf candidates x ∨
    sv.compositeOf candidates x = sv.compositeOf candidates y ∧ x.id < y.id

theorem not_ranksAbove_self : ¬ sv.RanksAbove candidates x x := by
  rintro (hlt | ⟨-, hlt⟩)
  · exact lt_irrefl _ hlt
  · exact lt_irrefl _ hlt

/-- A higher score first, and for equal scores what decides between the ids. -/
theorem score_trans {a b c : Rat} {P Q R : Prop} (hids : P → Q → R) (hxy : b < a ∨ a = b ∧ P)
    (hyz : c < b ∨ b = c ∧ Q) :
    c < a ∨ a = c ∧ R := by
  rcases hxy with hxy | ⟨hxy, hid⟩
  · rcases hyz with hyz | ⟨hyz, -⟩
    · exact .inl (hyz.trans hxy)
    · exact .inl (hyz ▸ hxy)
  · rcases hyz with hyz | ⟨hyz, hid'⟩
    · exact .inl (hxy ▸ hyz)
    · exact .inr ⟨hxy.trans hyz, hids hid hid'⟩

theorem RanksAbove.trans (hxy : sv.RanksAbove candidates x y) (hyz : sv.RanksAbove candidates y z) :
    sv.RanksAbove candidates x z :=
  score_trans lt_trans hxy hyz

section

variable (candidates : List RankedCandidate)

theorem scored_eq (h : Hit γ) : ((get? memoryID (update memoryID [] candidates) h.id).bind fun c =>
        if sv.relevanceFloor ≤ relevanceFor c none then some (sv.compositeScore h.row (relevanceFor c none), h)
        else none) =
      if sv.rankable candidates h = true then some (sv.compositeOf candidates h, h) else none := by
  cases hget : get? memoryID (update memoryID [] candidates) h.id with
  | none => simp [rankable, hget]
  | some c => simp [rankable, compositeOf, hget]

theorem filterMap_scored (hits : List (Hit γ)) :
    (hits.filterMap fun h => if sv.rankable candidates h = true then some (sv.compositeOf candidates h, h) else none) =
      (hits.filter (sv.rankable candidates)).map fun h => (sv.compositeOf candidates h, h) := by
  induction hits with
  | nil => rfl
  | cons h hits ih =>
    by_cases hrank : sv.rankable candidates h = true
    · rw [filter_cons_of_pos hrank, map_cons, ← ih, filterMap_cons_some (by rw [if_pos hrank])]
    · rw [filter_cons_of_neg hrank, ← ih, filterMap_cons_none (by rw [if_neg hrank])]

theorem rankHydratedHits_eq (hits : List (Hit γ)) : sv.rankHydratedHits candidates hits none =
      (((hits.filter (sv.rankable candidates)).map fun h => (sv.compositeOf candidates h, h)).insertionSort
        fun x y => scoredBefore x y).map Prod.snd := by
  rw [← filterMap_scored]
  simp only [rankHydratedHits, scored_eq]

theorem rankHydratedHits_perm (hits : List (Hit γ)) :
    (sv.rankHydratedHits candidates hits none).Perm (hits.filter (sv.rankable candidates)) := by
  rw [rankHydratedHits_eq]
  refine ((perm_insertionSort _ _).map Prod.snd).trans ?_
  rw [map_map, show Prod.snd ∘ (fun h => (sv.compositeOf candidates h, h)) = id from rfl, map_id]

end

theorem mem_rankHydratedHits_iff :
    h ∈ sv.rankHydratedHits candidates hits none ↔ h ∈ hits ∧ sv.rankable candidates h = true := by
  rw [(rankHydratedHits_perm candidates hits).mem_iff, mem_filter]

theorem scoredBefore_trans {x y z : Rat × Hit γ} (hxy : scoredBefore x y = true) (hyz : scoredBefore y z = true) :
    scoredBefore x z = true := by
  simp only [scoredBefore, Bool.or_eq_true, Bool.and_eq_true, decide_eq_true_eq] at *
  exact score_trans le_trans hxy hyz

theorem scoredBefore_total (x y : Rat × Hit γ) : scoredBefore x y = true ∨ scoredBefore y x = true := by
  simp only [scoredBefore, Bool.or_eq_true, Bool.and_eq_true, decide_eq_true_eq]
  rcases lt_trichotomy x.1 y.1 with hlt | heq | hlt
  · exact .inr (.inl hlt)
  · rcases Nat.le_total x.2.id y.2.id with hid | hid
    · exact .inl (.inr ⟨heq, hid⟩)
    · exact .inr (.inr ⟨heq.symm, hid⟩)
  · exact .inl (.inl hlt)

theorem rankHydratedHits_pairwise (hnodup : (hits.map Hit.id).Nodup) :
    (sv.rankHydratedHits candidates hits none).Pairwise (sv.RanksAbove candidates) := by
  have hids : (sv.rankHydratedHits candidates hits none).Pairwise fun x y => x.id ≠ y.id := by
    have hfilter : ((hits.filter (sv.rankable candidates)).map Hit.id).Nodup :=
      (filter_sublist.map Hit.id).nodup hnodup
    exact pairwise_map.mp (((rankHydratedHits_perm candidates hits).map Hit.id).nodup_iff.mpr hfilter)
  have htrans : IsTrans (Rat × Hit γ) fun x y => scoredBefore x y = true := ⟨fun _ _ _ => scoredBefore_trans⟩
  have htotal : Std.Total fun x y : Rat × Hit γ => scoredBefore x y = true := ⟨scoredBefore_total⟩
  have hsorted := pairwise_insertionSort (fun x y : Rat × Hit γ => scoredBefore x y = true)
    ((hits.filter (sv.rankable candidates)).map fun h => (sv.compositeOf candidates h, h))
  rw [rankHydratedHits_eq] at hids ⊢
  rw [pairwise_map] at hids ⊢
  refine (hsorted.and hids).imp_of_mem fun {a b} ha hb hab => ?_
  obtain ⟨x, -, rfl⟩ := mem_map.mp ((mem_insertionSort _).mp ha)
  obtain ⟨y, -, rfl⟩ := mem_map.mp ((mem_insertionSort _).mp hb)
  simp only [scoredBefore, Bool.or_eq_true, Bool.and_eq_true, decide_eq_true_eq] at hab
  rcases hab with ⟨hlt | ⟨heq, hle⟩, hne⟩
  · exact .inl hlt
  · exact .inr ⟨heq, Nat.lt_of_le_of_ne hle hne⟩

theorem fuseCandidates_nodup (vector fts : List RankedCandidate) (k : Nat) :
    ((fuseCandidates vector fts k).map memoryID).Nodup :=
  (map_filterMap_get?_sublist _).nodup ((perm_insertionSort _ _).nodup_iff.mpr (nodup_eraseDups _))

/-! ## The two passes -/

section Passes

variable (sv dbs q fused carried guard)

def Service.firstRows : List (Hit γ) :=
  Dict.update Hit.id carried (Service.hydrateMissing dbs q 1 (fused.take q.limit) carried)

def Service.firstAllowed : PiiReadGuard × List (Hit γ) :=
  sv.allow guard (sv.rankHydratedHits (fused.take q.limit) (Service.firstRows dbs q fused carried) none)

def Service.firstKept : List (Hit γ) := sv.collapse (sv.firstAllowed dbs q fused carried guard).2

def Service.refillRows : List (Hit γ) :=
  Dict.update Hit.id (Service.firstRows dbs q fused carried)
    (Service.hydrateMissing dbs q 2 (fused.drop q.limit) (Service.firstRows dbs q fused carried))

def Service.refillAllowed : List (Hit γ) :=
  (sv.allow (sv.firstAllowed dbs q fused carried guard).1
    (sv.rankHydratedHits fused (Service.refillRows dbs q fused carried) none)).2

end Passes

theorem rankFusedWindow_refill (hshort : (sv.firstKept dbs q fused carried guard).length < q.limit)
    (hrest : fused.drop q.limit ≠ []) :
    sv.rankFusedWindow dbs q fused carried guard =
      (sv.collapse (sv.refillAllowed dbs q fused carried guard)).take q.limit := by
  have hcond : (q.limit ≤ (sv.firstKept dbs q fused carried guard).length || (fused.drop q.limit).isEmpty) = false := by
    simp only [Bool.or_eq_false_iff, decide_eq_false_iff_not, Nat.not_le]
    exact ⟨hshort, by simpa using hrest⟩
  change (if (q.limit ≤ (sv.firstKept dbs q fused carried guard).length || (fused.drop q.limit).isEmpty) = true then _
    else _) = _
  rw [if_neg (by simp [hcond])]
  rfl

theorem mem_of_mem_collapse (hh : h ∈ sv.collapse hits) : h ∈ hits := by
  cases hs : sv.conflictSuppressionEnabled with
  | true =>
    rw [collapse_eq hs] at hh
    exact (Lib.Apart.keep_sublist [] hits).subset hh
  | false =>
    rw [collapse, hs] at hh
    exact hh

theorem mem_refillRows (hh : h ∈ Service.firstRows dbs q fused carried) :
    h ∈ Service.refillRows dbs q fused carried := by
  refine mem_update_of_mem hh fun x hx => ?_
  obtain ⟨m, -, hm⟩ := mem_filterMap.mp hx
  split at hm
  · obtain ⟨c, hc, rfl⟩ := Option.map_eq_some_iff.mp hm
    obtain ⟨hcmem, hcid⟩ := get?_eq_some hc
    have hmissing := (mem_update hcmem).resolve_left (not_mem_nil)
    have hnew := (mem_filter.mp hmissing).2
    intro hid
    have hin : contains Hit.id (firstRows dbs q fused carried) c.memoryID = true :=
      contains_eq_true.mpr ⟨h, hh, hid.symm.trans hcid.symm⟩
    rw [hin] at hnew
    cases hnew
  · cases hm

theorem rankable_of_take {n : Nat} (hfused : (fused.map memoryID).Nodup)
    (hh : sv.rankable (fused.take n) h = true) : sv.rankable fused h = true := by
  have hall : update memoryID [] fused = fused :=
    update_of_nodup (by simpa using hfused)
  have htake : update memoryID [] (fused.take n) = fused.take n := by
    refine update_of_nodup ?_
    rw [nil_append]
    exact ((take_sublist n fused).map _).nodup hfused
  simp only [rankable, hall, htake, Option.any_eq_true] at hh ⊢
  obtain ⟨c, hc, hfloor⟩ := hh
  exact ⟨c, get?_of_take hc, hfloor⟩

theorem mem_allow_iff : h ∈ (sv.allow guard hits).2 ↔ h ∈ hits ∧ h.id ∈ (sv.allow guard hits).1.allowed := by
  simp [allow, mem_filter]

theorem allowed_subset : guard.allowed ⊆ (sv.allow guard hits).1.allowed := List.subset_append_left _ _

theorem mem_refillAllowed (hfused : (fused.map memoryID).Nodup)
    (hh : h ∈ (sv.firstAllowed dbs q fused carried guard).2) : h ∈ sv.refillAllowed dbs q fused carried guard := by
  obtain ⟨hranked, hallowed⟩ := mem_allow_iff.mp hh
  obtain ⟨hrow, hrankable⟩ := mem_rankHydratedHits_iff.mp hranked
  refine mem_allow_iff.mpr ⟨mem_rankHydratedHits_iff.mpr ⟨mem_refillRows hrow, rankable_of_take hfused hrankable⟩, ?_⟩
  exact allowed_subset hallowed

theorem conflictGroups_eq_nil (hnone : ∀ i m, (dbs i).conflictGroups m = [])
    (hcarried : ∀ x ∈ carried, x.conflictGroups = [])
    (hh : h ∈ Service.refillRows dbs q fused carried) : h.conflictGroups = [] := by
  have hread : ∀ i ≤ 2, ∀ candidates known, ∀ x ∈ hydrateMissing dbs q i candidates known, x.conflictGroups = [] := by
    intro i hi candidates known x hx
    rw [(mem_hydrateHits hx hi).1.groups, hnone]
  rcases mem_update hh with hh | hh
  · rcases mem_update hh with hh | hh
    · exact hcarried h hh
    · exact hread 1 (by decide) _ _ h hh
  · exact hread 2 le_rfl _ _ h hh

theorem collapse_eq_self (hnone : ∀ x ∈ hits, x.conflictGroups = []) : sv.collapse hits = hits := by
  cases hs : sv.conflictSuppressionEnabled with
  | true => rw [collapse_eq hs, Lib.Apart.keep_eq_self hnone]
  | false => rw [collapse, hs, if_neg (by decide)]

section

variable (hcarried : (carried.map Hit.id).Nodup)
include hcarried

theorem firstAllowed_nodup : (sv.firstAllowed dbs q fused carried guard).2.Nodup := by
  have hpairwise : (sv.firstAllowed dbs q fused carried guard).2.Pairwise (sv.RanksAbove (fused.take q.limit)) :=
    (rankHydratedHits_pairwise (nodup_keys_update hcarried)).sublist filter_sublist
  refine hpairwise.imp ?_
  rintro x y habove rfl
  exact not_ranksAbove_self habove

theorem refillRows_nodup : ((Service.refillRows dbs q fused carried).map Hit.id).Nodup :=
  nodup_keys_update (nodup_keys_update hcarried)

theorem refillAllowed_pairwise : (sv.refillAllowed dbs q fused carried guard).Pairwise (sv.RanksAbove fused) :=
  (rankHydratedHits_pairwise (refillRows_nodup hcarried)).sublist filter_sublist

end

theorem before_of_cut {β : Type} {l : List β} {r : β → β → Prop} {n : Nat} {b : β} (hl : l.Pairwise r) (hb : b ∈ l)
    (hcut : b ∉ l.take n) : (l.take n).length = n ∧ ∀ a ∈ l.take n, r a b := by
  rw [← take_append_drop n l] at hl hb
  have hb := (mem_append.mp hb).resolve_left hcut
  refine ⟨?_, fun a ha => (pairwise_append.mp hl).2.2 a ha b hb⟩
  have hpos := length_pos_of_mem hb
  rw [length_drop] at hpos
  rw [length_take]
  omega

theorem page_cases (hranked : hits.Pairwise (sv.RanksAbove candidates)) (hh : h ∈ hits) (limit : Nat) :
    let page := (sv.collapse hits).take limit
    h ∈ page ∨ (∃ x ∈ page, sv.RanksAbove candidates x h ∧ ¬ Apart x h) ∨
      (page.length = limit ∧ ∀ x ∈ page, sv.RanksAbove candidates x h) := by
  intro page
  have hcollapsed : (sv.collapse hits).Pairwise (sv.RanksAbove candidates) := by
    cases hs : sv.conflictSuppressionEnabled with
    | true =>
      rw [collapse_eq hs]
      exact hranked.sublist (Lib.Apart.keep_sublist [] hits)
    | false =>
      rw [collapse, hs]
      exact hranked
  by_cases hpage : h ∈ page
  · exact .inl hpage
  · refine .inr ?_
    by_cases hkept : h ∈ sv.collapse hits
    · exact .inr (before_of_cut hcollapsed hkept hpage)
    · -- suppressed by a hit that is on the page or cut itself
      have hs : sv.conflictSuppressionEnabled = true := by
        cases hs : sv.conflictSuppressionEnabled with
        | true => rfl
        | false =>
          rw [collapse, hs] at hkept
          exact absurd hh hkept
      rw [collapse_eq hs] at hkept
      obtain ⟨x, hx, habove, hshare⟩ :=
        Lib.Apart.exists_of_not_mem_keep hranked hh hkept (disjoint_nil_left _)
      rw [← collapse_eq hs] at hx
      by_cases hxpage : x ∈ page
      · exact .inl ⟨x, hxpage, habove, hshare⟩
      · obtain ⟨hfull, hbefore⟩ := before_of_cut hcollapsed hx hxpage
        exact .inr ⟨hfull, fun y hy => RanksAbove.trans (hbefore y hy) habove⟩

end

/-! A page shows no two memories that a pending escalation joins if the rows it is made of agree on the escalations, and
a refill loses a hit of the first pass exactly if a page of better ones displaces it. -/

open Lib List

variable {γ : Type} {dbs : Nat → Db γ}

/-- The escalation is pending at the statement `i` and from then on until the request ends. -/
def PendingSince (dbs : Nat → Db γ) (e : Escalation) (i : Nat) : Prop := ∀ j, i ≤ j → j ≤ 3 → (dbs j).Pending e

/-- Two memories of the page are joined by an escalation that is pending since the conflict groups of one of them were
read. -/
def Contradicts (dbs : Nat → Db γ) (page : List (Hit γ)) : Prop :=
  ∃ x ∈ page, ∃ y ∈ page, ∃ e : Escalation, e.Joins x.id y.id ∧ PendingSince dbs e x.readAt

/-- The state of the database at the hydrations `i < j`: two memories that can be hydrated by them and that an
escalation joins which is pending since `j` had a pending escalation in common already. -/
def Consistent (dbs : Nat → Db γ) : Prop :=
  ∀ i j, i < j → j ≤ 2 → ∀ a ∈ (dbs i).memories, (dbs i).eligible 0 a = true →
    ∀ b ∈ (dbs j).memories, (dbs j).eligible 0 b = true → ∀ e : Escalation, e.Joins a.id b.id → PendingSince dbs e j →
      ¬List.Disjoint ((dbs i).conflictGroups a.id) ((dbs j).conflictGroups b.id)

theorem eligible_zero {db : Db γ} {minConfidence : Rat} {m : MemoryRow γ} (h : db.eligible minConfidence m = true)
    (h0 : 0 ≤ minConfidence) : db.eligible 0 m = true := by
  simp only [Db.eligible, Bool.and_eq_true, decide_eq_true_eq] at h ⊢
  exact ⟨⟨⟨⟨⟨⟨h0.trans h.1.1.1.1.1.1, h.1.1.1.1.1.2⟩, h.1.1.1.1.2⟩, h.1.1.1.2⟩, h.1.1.2⟩, h.1.2⟩, h.2⟩

theorem hybrid_not_contradicts {page : List (Hit γ)} {minConfidence : Rat} (hc : Consistent dbs)
    (h0 : 0 ≤ minConfidence) (hp : Page (Hydrated dbs minConfidence) page) : ¬Contradicts dbs page := by
  rintro ⟨x, hx, y, hy, e, hj, hsince⟩
  have hX := hp.all x hx
  have hY := hp.all y hy
  have hfresh : Page (Fresh dbs) page := ⟨fun h hh => (hp.all h hh).toFresh, hp.apart⟩
  have hpx := hsince _ le_rfl (hX.readAt.trans (by decide))
  rcases Nat.lt_or_ge y.readAt x.readAt with hlt | hge
  · -- the groups of `y` were read before those of `x`
    refine hc _ _ hlt hX.readAt y.row hY.row (eligible_zero hY.eligible h0) x.row hX.row (eligible_zero hX.eligible h0)
      e hj.symm hsince ?_
    have hne : y ≠ x := fun heq => hpx.ne hj (heq ▸ rfl)
    have hapart : Apart y x := hp.apart.forall hy hx hne
    rw [Apart, hX.groups, hY.groups] at hapart
    exact hapart
  · exact hfresh.not_pending hx hy hj hpx (hsince _ hge (hY.readAt.trans (by decide)))

theorem fallback_not_contradicts {sv : Service γ} {q : FindSimilarQuery} (hs : sv.conflictSuppressionEnabled = true) :
    ¬Contradicts dbs (sv.findSimilarFallback dbs q) := by
  rintro ⟨x, hx, y, hy, e, hj, hsince⟩
  obtain ⟨hpage, hone⟩ :
    Page (Fresh dbs) (sv.findSimilarFallback dbs q) ∧ OneSnapshot (sv.findSimilarFallback dbs q) :=
    page_findSimilarFallback hs
  have hpx := hsince _ le_rfl ((hpage.all x hx).readAt.trans (by decide))
  rcases hone with ⟨i, hi⟩ | hnone
  · refine hpage.not_pending hx hy hj hpx ?_
    rw [hi y hy, ← hi x hx]
    exact hpx
  · have hmem := hpx.mem_conflictGroups hj
    rw [← (hpage.all x hx).groups, hnone x hx] at hmem
    cases hmem

/-- Otherwise a request merges the two rows. -/
theorem consistent_of_pages (h : ∀ (sv : Service γ) (q : FindSimilarQuery) (page : List (Hit γ)),
      sv.conflictSuppressionEnabled = true → sv.findSimilar dbs q = some page → ¬Contradicts dbs page) :
    Consistent dbs := by
  intro i j hij hj a ha hea b hb heb e hjoins hsince hdisj
  have hab : a.id ≠ b.id := (hsince j le_rfl (hj.trans (by decide))).ne hjoins
  have hno : ∀ A B : Hit γ, A.id = a.id → B.id = b.id → B.readAt = j → ¬Merges dbs A B := by
    rintro A B hA hB hread ⟨sv, q, hs, hpage⟩
    refine h sv q [A, B] hs hpage ⟨B, by simp, A, by simp, e, ?_, hread ▸ hsince⟩
    rw [hA, hB]
    exact hjoins.symm
  interval_cases j
  · exact absurd hij (Nat.not_lt_zero i)
  · obtain rfl : i = 0 := by omega
    exact hno _ _ rfl rfl rfl (merges_rerank ha hea hb heb hab hdisj)
  · rcases Nat.lt_or_ge i 1 with hi | hi
    · obtain rfl : i = 0 := by omega
      exact hno _ _ rfl rfl rfl (merges_rerank_refill ha hea hb heb hab hdisj)
    · obtain rfl : i = 1 := by omega
      exact hno _ _ rfl rfl rfl (merges_refill ha hea hb heb hab hdisj)

/-- Whatever the service and the query, no page contradicts itself, exactly if the states of the database at its
hydrations are consistent. -/
theorem page_without_contradiction (dbs : Nat → Db γ) :
    (∀ (sv : Service γ) (q : FindSimilarQuery) (page : List (Hit γ)),
      sv.conflictSuppressionEnabled = true → sv.findSimilar dbs q = some page → ¬Contradicts dbs page) ↔
    Consistent dbs := by
  refine ⟨consistent_of_pages, fun hc sv q page hs hpage => ?_⟩
  simp only [Service.findSimilar, Option.ite_none_right_eq_some] at hpage
  obtain ⟨hvalid, hpage⟩ := hpage
  split at hpage
  · simp only [FindSimilarQuery.valid, Bool.and_eq_true, decide_eq_true_eq] at hvalid
    exact hybrid_not_contradicts hc hvalid.1.2 (page_findSimilarHybrid hs hpage)
  · cases hpage
    exact fallback_not_contradicts hs

/-! A refilled page. -/

def sampleMemory (id : Nat) (content : Nat) : MemoryRow Nat := ⟨id, content, 1, true, false, false, none, 0, none⟩

/-- Three memories; the content 1 of the second is blocked by the PII re-check. -/
def sampleMemories : List (MemoryRow Nat) := [sampleMemory 1 0, sampleMemory 2 1, sampleMemory 3 0]

def sampleDb (escalations : List Escalation)
    (he : ∀ e ∈ escalations, e.newMemoryID = 3 ∧ e.candidateMemoryID = 1) : Db Nat where
  now := 1
  memories := sampleMemories
  escalations
  primaryKey := by decide
  newMemory e h := ⟨sampleMemory 3 0, by decide, (he e h).1.symm⟩
  candidateMemory e h := ⟨sampleMemory 1 0, by decide, (he e h).2.symm⟩
  distinctMemories e h := by
    rw [(he e h).1, (he e h).2]
    decide

def sampleEscalation : Escalation := ⟨7, 3, 1, .pending⟩

def insertedDb (i : Nat) : Db Nat :=
  if i ≤ 1 then sampleDb [] (by decide) else sampleDb [sampleEscalation] (by decide)

def sampleService : Service Nat where
  hybridEnabled := true
  fallbackEnabled := true
  conflictSuppressionEnabled := true
  rerankEnabled := false
  rerankMaxCandidates := 50
  rerankClient := none
  rrfK := 60
  relevanceFloor := 0
  compositeScore _ relevance := relevance
  piiPresent content := content == 1

def sampleQuery : FindSimilarQuery where
  limit := 2
  minConfidence := 0
  searchable := true
  vectorHits := [(1, 1), (2, 1)]
  vectorHits_le := le_rfl
  fullTextRows n := [⟨2, 1⟩, ⟨3, 1⟩].take n
  fullTextRows_le _ := List.length_take_le ..

/-- The page of the sample query shows the memories 1 and 3, which the escalation joins. -/
def samplePage : List (Hit Nat) :=
  [⟨sampleMemory 1 0, 1, .vector, [], 1⟩, ⟨sampleMemory 3 0, 1, .fullText, [7], 2⟩]

theorem page_with_contradiction : sampleService.conflictSuppressionEnabled = true ∧
      sampleService.findSimilar insertedDb sampleQuery = some samplePage ∧ Contradicts insertedDb samplePage := by
  refine ⟨rfl, by decide +kernel, _, mem_cons_of_mem _ mem_cons_self, _, mem_cons_self,
    sampleEscalation, .inl ⟨rfl, rfl⟩, ?_⟩
  intro j hj _
  have hj : ¬j ≤ 1 := Nat.not_le.mpr hj
  rw [insertedDb, if_neg hj]
  exact ⟨mem_cons_self, rfl⟩

/-! ## The refill -/

section Refill

variable {sv : Service γ} {q : FindSimilarQuery} {fused : List RankedCandidate} {carried : List (Hit γ)}
  {guard : PiiReadGuard}

instance (candidates : List RankedCandidate) (x y : Hit γ) : Decidable (sv.RanksAbove candidates x y) :=
  inferInstanceAs (Decidable (_ ∨ _ ∧ _))

instance (x y : Hit γ) : Decidable (Apart x y) :=
  inferInstanceAs (Decidable (∀ g ∈ x.conflictGroups, g ∉ y.conflictGroups))

theorem le_length_takeWhile {α : Type} {p : α → Bool} {l : List α} {n : Nat} :
    n ≤ (l.takeWhile p).length ↔ (l.take n).length = n ∧ ∀ x ∈ l.take n, p x = true := by
  induction l generalizing n with
  | nil => cases n <;> simp
  | cons x l ih =>
    cases n with
    | zero => simp
    | succ n =>
      by_cases hx : p x = true
      · simp [hx, ih]
      · simp [hx]

/-- A hit that the first pass kept is on the refilled page, or a hit of its groups before it is, exactly if less than
a page of the candidates left by the suppression come before it and before all those of its groups. Without conflicts
the page is no shorter than what the first pass kept. -/
theorem refill_keeps_iff (hfused : (fused.map RankedCandidate.memoryID).Nodup) (hcarried : (carried.map Hit.id).Nodup)
    (hshort : (sv.firstKept dbs q fused carried guard).length < q.limit) (hrest : fused.drop q.limit ≠ []) :
    let page := sv.rankFusedWindow dbs q fused carried guard
    (∀ h ∈ sv.firstKept dbs q fused carried guard, (h ∈ page ∨ ∃ x ∈ page, sv.RanksAbove fused x h ∧ ¬ Apart x h) ↔
        ((sv.collapse (sv.refillAllowed dbs q fused carried guard)).takeWhile fun x =>
          sv.RanksAbove fused x h ∧ Apart x h).length < q.limit) ∧
    ((∀ i m, (dbs i).conflictGroups m = []) → (∀ x ∈ carried, x.conflictGroups = []) →
      (sv.firstKept dbs q fused carried guard).length ≤ page.length) := by
  intro page
  have hpage : page = (sv.collapse (sv.refillAllowed dbs q fused carried guard)).take q.limit :=
    rankFusedWindow_refill hshort hrest
  constructor
  · intro h hh
    have hallowed := mem_refillAllowed hfused (mem_of_mem_collapse hh)
    have hcases := page_cases (refillAllowed_pairwise hcarried) hallowed q.limit
    rw [← hpage] at hcases
    rw [← Nat.not_le, le_length_takeWhile, ← hpage]
    simp only [decide_eq_true_eq]
    constructor
    · rintro (hin | ⟨x, hx, -, hshare⟩) ⟨-, hall⟩
      · exact not_ranksAbove_self (hall h hin).1
      · exact hshare (hall x hx).2
    · intro hnot
      rcases hcases with hin | hshared | ⟨hfull, habove⟩
      · exact .inl hin
      · exact .inr hshared
      · by_contra hlost
        rw [not_or] at hlost
        refine hnot ⟨hfull, fun x hx => ⟨habove x hx, ?_⟩⟩
        by_contra hshare
        exact hlost.2 ⟨x, hx, habove x hx, hshare⟩
  · intro hnone hnone'
    have hgroups : ∀ x ∈ sv.refillAllowed dbs q fused carried guard, x.conflictGroups = [] := fun x hx =>
      conflictGroups_eq_nil hnone hnone' (mem_rankHydratedHits (mem_allow hx))
    have hkept : sv.firstKept dbs q fused carried guard = (sv.firstAllowed dbs q fused carried guard).2 :=
      collapse_eq_self fun x hx => hgroups x (mem_refillAllowed hfused hx)
    have hsub : (sv.firstAllowed dbs q fused carried guard).2 ⊆ sv.refillAllowed dbs q fused carried guard :=
      fun x hx => mem_refillAllowed hfused hx
    have hlen := ((firstAllowed_nodup hcarried).subperm hsub).length_le
    rw [hkept] at hshort ⊢
    rw [hpage, collapse_eq_self hgroups, length_take]
    exact Nat.le_min.mpr ⟨hshort.le, hlen⟩

end Refill

def sampleFused : List RankedCandidate :=
  fuseCandidates (Service.vectorCandidates sampleQuery)
    (Service.clampedCandidates (Service.fullTextSearch sampleQuery 2 []) 2) sampleService.rrfK

theorem refill_keeps_iff_sample :
    (sampleService.firstKept (fun _ => sampleDb [] (by decide)) sampleQuery sampleFused [] ⟨[], []⟩).length ≤
      (sampleService.rankFusedWindow (fun _ => sampleDb [] (by decide)) sampleQuery sampleFused []
        ⟨[], []⟩).length := by
  have hfused : (sampleFused.map RankedCandidate.memoryID).Nodup := fuseCandidates_nodup _ _ _
  have hcarried : (([] : List (Hit Nat)).map Hit.id).Nodup := nodup_nil
  have hshort : (sampleService.firstKept (fun _ => sampleDb [] (by decide)) sampleQuery sampleFused [] ⟨[], []⟩).length
      < sampleQuery.limit := by decide +kernel
  exact (refill_keeps_iff hfused hcarried hshort (by decide +kernel)).2 (fun _ _ => rfl) fun _ h => by cases h

def displacingDb : Db Nat where
  now := 1
  memories := [{ sampleMemory 1 0 with confidence := 1 / 2 }, sampleMemory 2 0, sampleMemory 3 1, sampleMemory 4 0]
  escalations := []
  primaryKey := by decide
  newMemory _ h := by cases h
  candidateMemory _ h := by cases h
  distinctMemories _ h := by cases h

/-- The default weights, for memories as recent as can be that were never found useful or retrieved. -/
def displacingService : Service Nat :=
  { sampleService with compositeScore := fun row relevance => 2 / 5 * relevance + 1 / 4 + 1 / 10 * row.confidence }

def displacingQuery : FindSimilarQuery where
  limit := 2
  minConfidence := 0
  searchable := true
  vectorHits := [(1, 1 / 2), (2, 1 / 2)]
  vectorHits_le := le_rfl
  fullTextRows n := [⟨3, 1⟩, ⟨4, 1⟩].take n
  fullTextRows_le _ := List.length_take_le ..

def displacingFused : List RankedCandidate :=
  fuseCandidates (Service.vectorCandidates displacingQuery)
    (Service.clampedCandidates (Service.fullTextSearch displacingQuery 2 []) 2) displacingService.rrfK

/-- The first pass keeps the memory 1 and loses the memory 3 to the PII re-check. The refill brings the memories 2 and
4, which score higher, and 1 is not on the page any more. No conflict is there. -/
theorem refill_displaces :
    displacingService.firstKept (fun _ => displacingDb) displacingQuery displacingFused [] ⟨[], []⟩ =
        [⟨{ sampleMemory 1 0 with confidence := 1 / 2 }, 1 / 2, .vector, [], 1⟩] ∧
      displacingService.findSimilar (fun _ => displacingDb) displacingQuery =
        some [⟨sampleMemory 2 0, 1 / 2, .vector, [], 2⟩, ⟨sampleMemory 4 0, 1, .fullText, [], 2⟩] ∧
      displacingService.findSimilar (fun _ => displacingDb) displacingQuery =
        some (displacingService.rankFusedWindow (fun _ => displacingDb) displacingQuery displacingFused []
          ⟨[], []⟩) := by
  decide +kernel

end IbexHarness.Retrieval
