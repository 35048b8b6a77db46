import IbexHarness.Context.Lemmas.Wrap

/-! The counts and the ids the packer reports, before and after the trim. -/

namespace IbexHarness.Context

open Lib List WrapCostContext

variable {α : Type}

/-! ## What the packer left out -/

section
variable {n : Nat} {tokens : Fin n → Nat} {tokenBudget : Nat}

theorem greedyLoop_complete (maxSkips : Nat) {order : List (Fin n)} (hnodup : order.Nodup) (used skips : Nat) :
    (greedyLoop tokens tokenBudget maxSkips order used skips).1 = order ∨
      ∃ i ∈ order, i ∈ (greedyLoop tokens tokenBudget maxSkips order used skips).2 ∧
        i ∉ (greedyLoop tokens tokenBudget maxSkips order used skips).1 ∧
        tokenBudget <
          used + selectionTokens tokens (greedyLoop tokens tokenBudget maxSkips order used skips).1 + tokens i := by
  fun_induction greedyLoop tokens tokenBudget maxSkips order used skips with
  | case1 => exact .inl rfl
  | case2 idx order used skips hfits selected examined hloop ih =>
    obtain ⟨hidx, hnodup⟩ := nodup_cons.1 hnodup
    simp only [hloop] at ih
    rcases ih hnodup with hall | ⟨i, hi, hexamined, hnot, hover⟩
    · exact .inl (congrArg (idx :: ·) hall)
    · refine .inr ⟨i, mem_cons_of_mem _ hi, mem_cons_of_mem _ hexamined, ?_, ?_⟩
      · rw [mem_cons, not_or]
        exact ⟨fun heq => hidx (heq ▸ hi), hnot⟩
      · rw [selectionTokens_cons]
        omega
  | case3 idx order used skips hfits hskips =>
    exact .inr ⟨idx, mem_cons_self, mem_cons_self, not_mem_nil, Nat.lt_of_not_le hfits⟩
  | case4 idx order used skips hfits hskips selected examined hloop ih =>
    have hidx : idx ∉ selected := by
      have hrest : (greedyLoop tokens tokenBudget maxSkips order used (skips + 1)).1.Sublist order :=
        greedyLoop_sublist maxSkips order used (skips + 1)
      rw [hloop] at hrest
      exact fun hmem => (nodup_cons.1 hnodup).1 (hrest.subset hmem)
    refine .inr ⟨idx, mem_cons_self, mem_cons_self, hidx, ?_⟩
    omega

variable [LinearOrder α] (candidates : Fin n → ScoredMemory α)

theorem mem_rankOrder (i : Fin n) : i ∈ rankOrder candidates :=
  (perm_insertionSort _ _).mem_iff.2 (mem_finRange i)

theorem greedySelect_complete (maxSkips : Nat) : (∀ i, i ∈ (greedySelect candidates tokens tokenBudget maxSkips).1) ∨
      ∃ i ∈ (greedySelect candidates tokens tokenBudget maxSkips).2,
        i ∉ (greedySelect candidates tokens tokenBudget maxSkips).1 ∧
        tokenBudget < selectionTokens tokens (greedySelect candidates tokens tokenBudget maxSkips).1 + tokens i := by
  unfold greedySelect
  rcases greedyLoop_complete maxSkips (rankOrder_nodup candidates) 0 0 with hall | ⟨i, -, hexamined, hnot, hover⟩
  · rw [hall]
    exact .inl (mem_rankOrder candidates)
  · rw [Nat.zero_add] at hover
    exact .inr ⟨i, hexamined, hnot, hover⟩

theorem selectUnderBudget_left [Add α] [Zero α] [Sums α] (p : ContextPacker) :
    let s := p.selectUnderBudget candidates tokens tokenBudget
    (∀ i, i ∉ s.1 → i ∈ s.2.2.getD (List.finRange n)) ∨
      ∃ i ∈ s.2.2.getD (List.finRange n), i ∉ s.1 ∧ tokenBudget < selectionTokens tokens s.1 + tokens i := by
  simp only [ContextPacker.selectUnderBudget]
  split
  · rcases greedySelect_complete candidates p.maxConsecutiveSkips with hall | hover
    · exact .inl fun i hi => absurd (hall i) hi
    · exact .inr hover
  · exact .inl fun i _ => mem_finRange i

end

/-! ## What the packer reports -/

structure Accounted (scored : List (ScoredMemory α)) (packed : PackedMemories α) : Prop where
  skipped : packed.skippedCount = scored.length - packed.memories.length
  reached : packed.wasBudgetReached = true ↔ 0 < packed.skippedCount
  excluded : packed.budgetExcludedIds ⊆ idsOf scored \ idsOf packed.memories

/-- The excluded ids are everything left out, or one of them does not fit beside the memories. -/
def ExcludedEnough (cost : ScoredMemory α → Nat) (scored : List (ScoredMemory α)) (tokenBudget : Int)
    (packed : PackedMemories α) : Prop :=
  idsOf scored \ idsOf packed.memories ⊆ packed.budgetExcludedIds ∨
    ∃ m ∈ scored, m.memoryId ∈ packed.budgetExcludedIds ∧
      tokenBudget < (((packed.memories.map cost).sum + cost m : Nat) : Int)

theorem ExcludedEnough.congr {cost cost' : ScoredMemory α → Nat} {scored : List (ScoredMemory α)} {tokenBudget : Int}
    {packed : PackedMemories α} (h : ExcludedEnough cost scored tokenBudget packed) (hsub : packed.memories ⊆ scored)
    (hcost : ∀ m ∈ scored, cost m = cost' m) : ExcludedEnough cost' scored tokenBudget packed := by
  rcases h with hall | ⟨m, hm, hexcluded, hover⟩
  · exact .inl hall
  · rw [hcost m hm, map_congr_left fun x hx => hcost x (hsub hx)] at hover
    exact .inr ⟨m, hm, hexcluded, hover⟩

theorem mem_budgetExcludedIdsOf {n : Nat} {candidates : Fin n → ScoredMemory α} {selected : List (Fin n)}
    {examined : Option (List (Fin n))} {id : Text} :
    id ∈ budgetExcludedIdsOf candidates selected examined ↔
      ∃ i ∈ examined.getD (List.finRange n), i ∉ selected ∧ (candidates i).memoryId = id := by
  simp only [budgetExcludedIdsOf, mem_toFinset, mem_map, mem_filter, decide_eq_true_eq, and_assoc]

section
variable {p : ContextPacker} {scored : List (ScoredMemory α)} {tokenBudget : Int} {costById : Option Dict}
  {packed : PackedMemories α} [Zero α]

theorem emptyPack_accounted (path : PackPath) {candidates : List (ScoredMemory α)} (hperm : candidates.Perm scored) :
    Accounted scored (p.emptyPack path candidates) ∧
      ExcludedEnough (p.packCost costById) scored tokenBudget (p.emptyPack path candidates) := by
  have hexcluded : (p.emptyPack path candidates).budgetExcludedIds =
      idsOf scored \ idsOf (p.emptyPack path candidates).memories :=
    (idsOf_perm hperm).trans (Finset.sdiff_empty).symm
  refine ⟨⟨?_, ?_, hexcluded.subset⟩, .inl hexcluded.symm.subset⟩
  · simp [ContextPacker.emptyPack, hperm.length_eq]
  · simp [ContextPacker.emptyPack, length_pos_iff]

variable [LinearOrder α] [Add α] [Sums α]

theorem ContextPacker.Finalized.accounted (h : p.Finalized scored tokenBudget costById packed)
    (hids : (scored.map (·.memoryId)).Nodup) (hpos : 0 < tokenBudget) :
    Accounted scored packed ∧ ExcludedEnough (p.packCost costById) scored tokenBudget packed := by
  have hperm := perm_insertionSort RankLe scored
  have hinj := injective_memoryId_get ((hperm.map _).nodup_iff.2 hids)
  -- a number is selected when its id is among the memories
  have hselected : ∀ i, ((scored.insertionSort RankLe).get i).memoryId ∈ idsOf packed.memories ↔
      i ∈ (p.selection scored tokenBudget costById).1 := by
    intro i
    rw [idsOf_perm h.perm, idsOf, mem_toFinset, map_map]
    exact mem_map_of_injective hinj
  refine ⟨⟨?_, ?_, ?_⟩, ?_⟩
  · rw [h.skippedCount, length_insertionSort]
  · rw [h.wasBudgetReached, decide_eq_true_eq]
  · rw [h.budgetExcludedIds]
    intro id hid
    obtain ⟨i, -, hnot, rfl⟩ := mem_budgetExcludedIdsOf.1 hid
    rw [Finset.mem_sdiff, hselected i]
    exact ⟨mem_idsOf.2 ⟨_, hperm.mem_iff.1 (get_mem _ i), rfl⟩, hnot⟩
  · rcases selectUnderBudget_left (scored.insertionSort RankLe).get p with hall | ⟨i, hexamined, hnot, hover⟩
    · left
      intro id hid
      obtain ⟨hin, hout⟩ := Finset.mem_sdiff.1 hid
      obtain ⟨m, hm, rfl⟩ := mem_idsOf.1 hin
      obtain ⟨i, rfl⟩ := mem_iff_get.1 (hperm.mem_iff.2 hm)
      have hnot := mt (hselected i).2 hout
      rw [h.budgetExcludedIds]
      exact mem_budgetExcludedIdsOf.2 ⟨i, hall i hnot, hnot, rfl⟩
    · refine .inr ⟨_, hperm.mem_iff.1 (get_mem _ i), ?_, ?_⟩
      · rw [h.budgetExcludedIds]
        exact mem_budgetExcludedIdsOf.2 ⟨i, hexamined, hnot, rfl⟩
      · rw [(h.perm.map _).sum_eq, map_map]
        exact (Int.toNat_lt hpos.le).1 hover

section

variable (hids : (scored.map (·.memoryId)).Nodup) (hpack : p.pack scored tokenBudget costById = .ok packed)
include hids hpack

theorem pack_accounted : Accounted scored packed ∧ ExcludedEnough (p.packCost costById) scored tokenBudget packed := by
  rcases ContextPacker.pack_cases hpack with ⟨-, rfl⟩ | ⟨hpos, hfinal⟩
  · exact emptyPack_accounted _ (perm_insertionSort _ _)
  · exact hfinal.accounted hids hpos

theorem pack_tokenEstimates {m : ScoredMemory α} (hm : m ∈ scored) :
    packed.tokenEstimates.get m.memoryId = some (p.tokens m) := by
  have hperm := perm_insertionSort RankLe scored
  have hestimates : packed.tokenEstimates = (scored.insertionSort RankLe).map fun c => (c.memoryId, p.tokens c) := by
    rcases ContextPacker.pack_cases hpack with ⟨-, rfl⟩ | ⟨-, hfinal⟩
    · rfl
    · exact hfinal.tokenEstimates
  rw [hestimates]
  apply Dict.get_of_mem
  · rw [map_map]
    exact (hperm.map _).nodup_iff.2 hids
  · exact mem_map_of_mem (hperm.mem_iff.2 hm)

end

end

/-! ## What the trim reports -/

def wrapAwareCost (kind : EstimateKind) (nonce : Text) (item : ScoredMemory α) : Nat :=
  kind.estimateTokens item.content + memoryWrapDelta kind nonce item (kind.estimateTokens item.content)

def wrappedTokens (kind : EstimateKind) (nonce : Text) (memories : List (ScoredMemory α)) : Nat :=
  (memories.map (wrapAwareCost kind nonce)).sum + memorySeparatorTokens kind memories.length

theorem idsOf_card {memories : List (ScoredMemory α)} (h : (memories.map (·.memoryId)).Nodup) :
    (idsOf memories).card = memories.length := by
  rw [idsOf, toFinset_card_of_nodup h, length_map]

section
variable {kind : EstimateKind} {nonce : Text} {scored : List (ScoredMemory α)} {usableBudget : Int}

theorem packCost_wrapAwareCosts (p : ContextPacker) (hids : (scored.map (·.memoryId)).Nodup) {item : ScoredMemory α}
    (hitem : item ∈ scored) :
    p.packCost (some (wrapAwareCosts kind nonce scored)) item = wrapAwareCost kind nonce item := by
  rw [ContextPacker.packCost, Option.bind_some, wrapAwareCosts_get hids hitem]
  rfl

theorem rawAndWrap_eq (hids : (scored.map (·.memoryId)).Nodup) {estimates : Dict} {item : ScoredMemory α}
    (hitem : item ∈ scored) (hestimate : estimates.get item.memoryId = some (kind.estimateTokens item.content)) :
    let ctx : WrapCostContext := ⟨kind, nonce, estimates, some (wrapAwareCosts kind nonce scored)⟩
    ctx.rawTokenEstimate item + ctx.itemWrapTokens item (ctx.rawTokenEstimate item) = wrapAwareCost kind nonce
      item := by
  simp only [rawTokenEstimate, itemWrapTokens, hestimate, Option.getD_some,
    Option.bind_some, wrapAwareCosts_get hids hitem, Nat.add_sub_cancel_left, wrapAwareCost]

theorem selectionFitsBudget_iff (hids : (scored.map (·.memoryId)).Nodup) {estimates : Dict}
    (hestimates : ∀ m ∈ scored, estimates.get m.memoryId = some (kind.estimateTokens m.content))
    {memories : List (ScoredMemory α)} (hsub : memories ⊆ scored) :
    selectionFitsBudget ⟨kind, nonce, estimates, some (wrapAwareCosts kind nonce scored)⟩ usableBudget
      memories = true ↔ (wrappedTokens kind nonce memories : Int) ≤ usableBudget := by
  rw [selectionFitsBudget, decide_eq_true_eq, selectionRawAndWrap, wrappedTokens]
  simp only
  rw [← Nat.add_assoc, ← sum_map_add,
    map_congr_left fun m hm => rawAndWrap_eq hids (hsub hm) (hestimates m (hsub hm))]

end

section
variable {ctx : WrapCostContext} {scored : List (ScoredMemory α)} {usableBudget : Int} {packed : PackedMemories α}

theorem WrapCostContext.selectionFitsBudget_sublist {s t : List (ScoredMemory α)} (h : s.Sublist t)
    (ht : ctx.selectionFitsBudget usableBudget t = true) : ctx.selectionFitsBudget usableBudget s = true := by
  have hraw : (s.map ctx.rawTokenEstimate).sum ≤ (t.map ctx.rawTokenEstimate).sum :=
    (h.map _).sum_le_sum fun _ _ => Nat.zero_le _
  have hwrap : (s.map fun item => ctx.itemWrapTokens item (ctx.rawTokenEstimate item)).sum ≤
      (t.map fun item => ctx.itemWrapTokens item (ctx.rawTokenEstimate item)).sum :=
    (h.map _).sum_le_sum fun _ _ => Nat.zero_le _
  have hbreaks : memorySeparatorTokens ctx.kind s.length ≤ memorySeparatorTokens ctx.kind t.length :=
    Nat.mul_le_mul_right _ (Nat.sub_le_sub_right h.length_le 1)
  rw [selectionFitsBudget, decide_eq_true_eq, selectionRawAndWrap] at ht ⊢
  simp only at ht ⊢
  omega

variable [LinearOrder α]

theorem wrapRefilled_nodup (h : (packed.memories.map (·.memoryId)).Nodup) :
    ((wrapRefilled ctx scored usableBudget packed).map (·.memoryId)).Nodup := by
  have hperm : ((ctx.dropUntilWrapFits packed.memories usableBudget).1 ++
      (ctx.dropUntilWrapFits packed.memories usableBudget).2).Perm packed.memories := Greedy.dropUntil_perm _ _
  refine Greedy.refill_induction (motive := fun l : List (ScoredMemory α) => (l.map (·.memoryId)).Nodup) ?_
    fun acc m _ hacc hskip _ => ?_
  · have hnodup := (hperm.map _).nodup_iff.2 h
    rw [map_append] at hnodup
    exact hnodup.of_append_left
  · rw [map_append]
    refine hacc.append (nodup_singleton _) ?_
    simpa using hskip

theorem wrapRefilled_maximal {m : ScoredMemory α} (hm : m ∈ scored)
    (hnot : m.memoryId ∉ idsOf (wrapRefilled ctx scored usableBudget packed)) :
    ctx.selectionFitsBudget usableBudget (wrapRefilled ctx scored usableBudget packed ++ [m]) = false := by
  have hid : m.memoryId ∉ (wrapRefilled ctx scored usableBudget packed).map (·.memoryId) := fun h =>
    hnot (mem_toFinset.2 h)
  refine Greedy.not_fits_refill (fun _ _ => selectionFitsBudget_sublist) ?_
    ((perm_insertionSort _ _).mem_iff.2 hm) (decide_eq_false hid) fun h => hid (mem_map_of_mem h)
  intro acc y hacc
  rw [decide_eq_true_eq, map_append] at *
  exact mem_append_left _ hacc

end

section
variable {kind : EstimateKind} {nonce : Text} {scored memories : List (ScoredMemory α)}
  {usableBudget : Int} {packed : PackedMemories α}

theorem idsOf_scored_subset (hids : (scored.map (·.memoryId)).Nodup)
    (hfrom : PackedFrom scored usableBudget packed.memories) (hacc : Accounted scored packed)
    (henough : ExcludedEnough (wrapAwareCost kind nonce) scored usableBudget packed) (hsub : memories ⊆ scored)
    (hfits : (wrappedTokens kind nonce memories : Int) ≤ usableBudget)
    (hcover : idsOf packed.memories ∪ packed.budgetExcludedIds ⊆ idsOf memories) : idsOf scored ⊆ idsOf memories := by
  rcases henough with hall | ⟨m, hm, hexcluded, hover⟩
  · intro id hid
    by_cases hin : id ∈ idsOf packed.memories
    · exact hcover (Finset.mem_union_left _ hin)
    · exact hcover (Finset.mem_union_right _ (hall (Finset.mem_sdiff.2 ⟨hid, hin⟩)))
  · exfalso
    have hnew : m ∉ packed.memories := fun hin =>
      (Finset.mem_sdiff.1 (hacc.excluded hexcluded)).2 (mem_idsOf.2 ⟨m, hin, rfl⟩)
    have hpart : (m :: packed.memories) ⊆ memories := by
      intro x hx
      rcases mem_cons.1 hx with rfl | hx
      · exact mem_of_mem_idsOf hids hsub hm (hcover (Finset.mem_union_right _ hexcluded))
      · have hin := Finset.mem_union_left packed.budgetExcludedIds (mem_idsOf.2 ⟨x, hx, rfl⟩)
        exact mem_of_mem_idsOf hids hsub (hfrom.subset hx) (hcover hin)
    obtain ⟨l, hl, hsublist⟩ := (nodup_cons.2 ⟨hnew, hfrom.nodup.of_map⟩).subperm hpart
    have hsum : (l.map (wrapAwareCost kind nonce)).sum ≤ (memories.map (wrapAwareCost kind nonce)).sum :=
      (hsublist.map _).sum_le_sum fun _ _ => Nat.zero_le _
    rw [(hl.map _).sum_eq, map_cons, sum_cons] at hsum
    rw [wrappedTokens] at hfits
    omega

variable [LinearOrder α] [Sums α]

theorem trimPackedForWrap_accounted (hids : (scored.map (·.memoryId)).Nodup) (hpos : 0 < usableBudget)
    (hfrom : PackedFrom scored usableBudget packed.memories) (hacc : Accounted scored packed)
    (henough : ExcludedEnough (wrapAwareCost kind nonce) scored usableBudget packed)
    (hestimates : ∀ m ∈ scored, packed.tokenEstimates.get m.memoryId = some (kind.estimateTokens m.content)) :
    Accounted scored
      (trimPackedForWrap kind nonce (wrapAwareCosts kind nonce scored) scored usableBudget packed) := by
  rw [trimPackedForWrap_eq kind nonce _ scored hpos packed]
  generalize hrefilled : wrapRefilled _ scored usableBudget packed = refilled
  have hsub : refilled ⊆ scored := hrefilled ▸ wrapRefilled_subset hfrom.subset
  have hnodup : (refilled.map (·.memoryId)).Nodup := hrefilled ▸ wrapRefilled_nodup hfrom.nodup
  have hfits : (wrappedTokens kind nonce refilled : Int) ≤ usableBudget :=
    (selectionFitsBudget_iff hids hestimates hsub).1 (hrefilled ▸ wrapRefilled_fits hpos)
  split
  next => exact hacc
  next =>
    have hids' : idsOf refilled ⊆ idsOf scored := idsOf_subset hsub
    have hexcluded : (idsOf packed.memories ∪ packed.budgetExcludedIds) \ idsOf refilled ⊆
        idsOf scored \ idsOf refilled :=
      Finset.sdiff_subset_sdiff (Finset.union_subset (idsOf_subset hfrom.subset)
        (hacc.excluded.trans Finset.sdiff_subset)) (Finset.Subset.refl _)
    have hskipped : packed.skippedCount + ((idsOf packed.memories \ idsOf refilled).card : Int) -
        ((idsOf refilled \ idsOf packed.memories).card : Int) = scored.length - refilled.length := by
      have hprior := Finset.card_sdiff_add_card_inter (idsOf packed.memories) (idsOf refilled)
      have hfinal := Finset.card_sdiff_add_card_inter (idsOf refilled) (idsOf packed.memories)
      rw [Finset.inter_comm, idsOf_card hnodup] at hfinal
      rw [idsOf_card hfrom.nodup] at hprior
      rw [hacc.skipped]
      omega
    refine ⟨hskipped, ?_, hexcluded⟩
    simp only [rebuildAfterWrapTrim, hskipped, decide_eq_true_eq]
    constructor
    · intro hne
      obtain ⟨id, hid⟩ := Finset.nonempty_iff_ne_empty.2 hne
      obtain ⟨hin, hout⟩ := Finset.mem_sdiff.1 (hexcluded hid)
      have hlt := Finset.card_lt_card (Finset.ssubset_iff_subset_ne.2 ⟨hids', fun heq => hout (heq ▸ hin)⟩)
      rw [idsOf_card hnodup, idsOf_card hids] at hlt
      omega
    · intro hlt hempty
      have hall := Finset.card_le_card (idsOf_scored_subset hids hfrom hacc henough hsub hfits
        (Finset.sdiff_eq_empty_iff_subset.1 hempty))
      rw [idsOf_card hnodup, idsOf_card hids] at hall
      omega

end

end IbexHarness.Context
