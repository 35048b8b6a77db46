import IbexHarness.Context.Lemmas.Packing

/-! An estimate is a function of the length of a text. -/

namespace IbexHarness.Context

open Lib List WrapCostContext

section

namespace EstimateKind

def ofLength : EstimateKind → Nat → Nat
  | .charsDiv4, n => (n + 3) / 4
  | .runesDiv35, n => (n * 2 + 6) / 7

variable (kind : EstimateKind)

theorem estimateTokens_eq (text : Text) : kind.estimateTokens text = kind.ofLength text.length := by
  cases kind <;> cases text <;> rfl

theorem ofLength_zero : kind.ofLength 0 = 0 := by cases kind <;> rfl

theorem ofLength_mono {m n : Nat} (h : m ≤ n) : kind.ofLength m ≤ kind.ofLength n := by
  cases kind <;> simp only [ofLength] <;> omega

theorem ofLength_add_le (m n : Nat) : kind.ofLength (m + n) ≤ kind.ofLength m + kind.ofLength n := by
  cases kind <;> simp only [ofLength] <;> omega

theorem ofLength_sum_le (ls : List Nat) : kind.ofLength ls.sum ≤ (ls.map kind.ofLength).sum := by
  induction ls with
  | nil => exact (kind.ofLength_zero).le
  | cons n ls ih =>
    rw [sum_cons, map_cons, sum_cons]
    exact (kind.ofLength_add_le n ls.sum).trans (Nat.add_le_add_left ih _)

theorem ofLength_mul_le (m n : Nat) : kind.ofLength (n * m) ≤ m * kind.ofLength n := by
  have h := kind.ofLength_sum_le (List.replicate m n)
  rwa [map_replicate, sum_replicate_nat, sum_replicate_nat, Nat.mul_comm m n] at h

theorem estimateTokens_intercalate_le (sep : Text) (parts : List Text) : kind.estimateTokens (sep.intercalate parts) ≤
      (parts.map kind.estimateTokens).sum + (parts.length - 1) * kind.estimateTokens sep := by
  have hparts : parts.map kind.estimateTokens = (parts.map List.length).map kind.ofLength := by
    simp [Function.comp_def, estimateTokens_eq]
  rw [hparts, estimateTokens_eq, estimateTokens_eq, Text.length_intercalate]
  exact (kind.ofLength_add_le _ _).trans (Nat.add_le_add (kind.ofLength_sum_le _) (kind.ofLength_mul_le _ _))

end EstimateKind

theorem escapeChar_of_urlSafe {c : Char} (h : (c.isAlphanum || c == '-' || c == '_') = true) :
    escapeChar true c = [c] := by
  have hne : ∀ d : Char, (d.isAlphanum || d == '-' || d == '_') = false → c ≠ d := by
    rintro d hd rfl
    rw [h] at hd
    cases hd
  simp [escapeChar, hne '&' (by decide), hne '<' (by decide), hne '>' (by decide), hne '\x22' (by decide),
    hne '\x27' (by decide)]

theorem escapeAttr_of_urlSafe {nonce : Text} (h : isUrlSafe nonce = true) : escapeAttr nonce = nonce := by
  have hc : ∀ c ∈ nonce, escapeChar true c = [c] := fun c hc => escapeChar_of_urlSafe (all_eq_true.1 h c hc)
  rw [escapeAttr, flatMap_congr hc, flatMap_singleton']

theorem isUrlSafe_representativeNonce (n : Nat) : isUrlSafe (representativeNonce n) = true := by
  rw [isUrlSafe, all_eq_true]
  intro c hc
  rw [eq_of_mem_replicate hc]
  decide

theorem length_serializeMemoryElement {nonce nonce' : Text} (h : isUrlSafe nonce = true) (h' : isUrlSafe nonce' = true)
    (hlen : nonce.length = nonce'.length) (memoryId category content : Text) :
    (serializeMemoryElement nonce memoryId category content).length =
      (serializeMemoryElement nonce' memoryId category content).length := by
  simp [serializeMemoryElement, memoryOpenTag, tagAttribute, escapeAttr_of_urlSafe h, escapeAttr_of_urlSafe h', hlen]

theorem memoryOpenTag_of_urlSafe {nonce : Text} (h : isUrlSafe nonce = true) :
    memoryOpenTag nonce none none = memoryOpenTagForEstimate nonce := by
  simp only [memoryOpenTag, tagAttribute, escapeAttr_of_urlSafe h, Option.map_none, Option.getD_none, append_assoc,
    nil_append]
  rfl

end

section

theorem lookup_of_mem {d : List (Text × Nat)} (hd : (d.map Prod.fst).Nodup) {key : Text} {value : Nat}
    (h : (key, value) ∈ d) : d.lookup key = some value := by
  induction d with
  | nil => exact absurd h not_mem_nil
  | cons p d ih =>
    obtain ⟨hp, hd⟩ := nodup_cons.1 hd
    rcases mem_cons.1 h with rfl | h
    · exact lookup_cons_self
    · have hne : (key == p.1) = false :=
        beq_false_of_ne fun heq => hp (heq ▸ mem_map_of_mem h)
      rw [lookup_cons, hne]
      exact ih hd h

theorem Dict.get_of_mem {d : Dict} (hd : (d.map Prod.fst).Nodup) {key : Text} {value : Nat} (h : (key, value) ∈ d) :
    d.get key = some value :=
  lookup_of_mem (by rw [map_reverse]; exact nodup_reverse.2 hd) (mem_reverse.2 h)

variable {α : Type}

/-! ## What a memory is charged -/

section
variable {kind : EstimateKind} {nonce : Text} {scored : List (ScoredMemory α)}

section

variable (hids : (scored.map (·.memoryId)).Nodup)
include hids

theorem wrapAwareCosts_get {item : ScoredMemory α} (h : item ∈ scored) :
    (wrapAwareCosts kind nonce scored).get item.memoryId = some (kind.estimateTokens item.content +
        memoryWrapDelta kind nonce item (kind.estimateTokens item.content)) := by
  apply Dict.get_of_mem
  · rw [wrapAwareCosts, map_map]
    exact hids
  · exact mem_map_of_mem h

theorem wrapped_le_item {item : ScoredMemory α} (h : item ∈ scored)
    (estimates : Dict) (raw : Nat) :
    estimateWrappedMemoryTokens kind nonce item ≤
      raw + itemWrapTokens ⟨kind, nonce, estimates, some (wrapAwareCosts kind nonce scored)⟩ item raw := by
  simp only [itemWrapTokens, Option.bind_some, wrapAwareCosts_get hids h, memoryWrapDelta]
  omega

theorem wrapped_le_of_fits {estimates : Dict}
    {remaining : List (ScoredMemory α)} (hsub : remaining ⊆ scored) {usableBudget : Int}
    (hfits : selectionFitsBudget ⟨kind, nonce, estimates, some (wrapAwareCosts kind nonce scored)⟩
      usableBudget remaining = true) :
    (((remaining.map (estimateWrappedMemoryTokens kind nonce)).sum + memorySeparatorTokens kind remaining.length : Nat)
      : Int) ≤ usableBudget := by
  refine Int.le_trans (Int.ofNat_le.2 ?_) (of_decide_eq_true hfits)
  simp only [selectionRawAndWrap]
  rw [← Nat.add_assoc, ← sum_map_add]
  refine Nat.add_le_add_right (sum_le_sum fun item hitem => ?_) _
  exact wrapped_le_item hids (hsub hitem) estimates _

end

theorem estimateTokens_wrapMemory {nonce' : Text} (h : isUrlSafe nonce) (h' : isUrlSafe nonce')
    (hlen : nonce.length = nonce'.length) (item : ScoredMemory α) :
    kind.estimateTokens (wrapMemory nonce item) = estimateWrappedMemoryTokens kind nonce' item := by
  rw [estimateWrappedMemoryTokens, EstimateKind.estimateTokens_eq, EstimateKind.estimateTokens_eq]
  exact congrArg kind.ofLength (length_serializeMemoryElement h h' hlen _ _ _)

end

variable {l l' memories : List (ScoredMemory α)}

theorem WrapCostContext.selectionFitsBudget_perm (ctx : WrapCostContext) (usableBudget : Int) (h : l.Perm l') :
    ctx.selectionFitsBudget usableBudget l = ctx.selectionFitsBudget usableBudget l' := by
  have hcost : ctx.selectionRawAndWrap l = ctx.selectionRawAndWrap l' := by
    simp only [selectionRawAndWrap, h.length_eq, (h.map _).sum_eq]
  rw [selectionFitsBudget, hcost, selectionFitsBudget]

theorem mem_idsOf {id : Text} : id ∈ idsOf memories ↔ ∃ m ∈ memories, m.memoryId = id := by
  rw [idsOf, mem_toFinset, mem_map]

theorem idsOf_perm (h : l.Perm l') : idsOf l = idsOf l' :=
  toFinset_eq_of_perm _ _ (h.map _)

theorem idsOf_subset (h : l ⊆ l') : idsOf l ⊆ idsOf l' := by
  intro id hid
  obtain ⟨m, hm, rfl⟩ := mem_idsOf.1 hid
  exact mem_idsOf.2 ⟨m, h hm, rfl⟩

theorem idsOf_append (l l' : List (ScoredMemory α)) : idsOf (l ++ l') = idsOf l ∪ idsOf l' := by
  rw [idsOf, map_append, toFinset_append]
  rfl

theorem mem_of_mem_idsOf {scored : List (ScoredMemory α)} (hids : (scored.map (·.memoryId)).Nodup) (hsub : l ⊆ scored)
    {m : ScoredMemory α} (hm : m ∈ scored) (h : m.memoryId ∈ idsOf l) : m ∈ l := by
  obtain ⟨m', hm', heq⟩ := mem_idsOf.1 h
  rwa [← inj_on_of_nodup_map hids (hsub hm') hm heq]

theorem perm_of_idsOf_subset {scored refilled : List (ScoredMemory α)}
    (hids : (scored.map (·.memoryId)).Nodup) (hnodup : (memories.map (·.memoryId)).Nodup) (hsub : memories ⊆ scored)
    (hrefilled : refilled ⊆ scored) (hcover : idsOf memories ⊆ idsOf refilled)
    (hlen : refilled.length = memories.length) : memories.Perm refilled := by
  have hmem : memories ⊆ refilled := fun m hm =>
    mem_of_mem_idsOf hids hrefilled (hsub hm) (hcover (mem_idsOf.2 ⟨m, hm, rfl⟩))
  exact (hnodup.of_map.subperm hmem).perm_of_length_le hlen.le

theorem droppedAfterRefill_eq {remaining dropped : List (ScoredMemory α)}
    (hperm : (remaining ++ dropped).Perm memories) (refilled : List (ScoredMemory α)) (priorExcluded : Finset Text) :
    droppedAfterRefill remaining refilled priorExcluded (idsOf dropped) =
      (idsOf memories ∪ priorExcluded) \ idsOf refilled := by
  rw [droppedAfterRefill, ← Finset.union_sdiff_distrib, ← Finset.union_sdiff_distrib, ← idsOf_perm hperm, idsOf_append,
    Finset.union_comm (idsOf dropped)]

variable [LinearOrder α]

theorem greedyWrapRefill_subset (ctx : WrapCostContext) {chosen scored : List (ScoredMemory α)} (usableBudget : Int)
    (h : chosen ⊆ scored) : ctx.greedyWrapRefill chosen scored usableBudget ⊆ scored := by
  intro m hm
  rcases Greedy.mem_of_mem_refill hm with hm | hm
  · exact h hm
  · exact (perm_insertionSort _ _).mem_iff.1 hm

/-- The selection of the trim: dropped until it fits, then refilled. -/
def wrapRefilled (ctx : WrapCostContext) (scored : List (ScoredMemory α)) (usableBudget : Int)
    (packed : PackedMemories α) : List (ScoredMemory α) :=
  ctx.greedyWrapRefill (ctx.dropUntilWrapFits packed.memories usableBudget).1 scored usableBudget

section
variable {ctx : WrapCostContext} {scored : List (ScoredMemory α)} {usableBudget : Int} {packed : PackedMemories α}

theorem wrapRefilled_subset (hsub : packed.memories ⊆ scored) : wrapRefilled ctx scored usableBudget packed ⊆ scored :=
  greedyWrapRefill_subset ctx usableBudget fun _ hm =>
    hsub ((Greedy.dropUntil_perm _ _).mem_iff.1 (mem_append_left _ hm))

theorem wrapRefilled_fits (hpos : 0 < usableBudget) :
    ctx.selectionFitsBudget usableBudget (wrapRefilled ctx scored usableBudget packed) = true := by
  have hempty : ctx.selectionFitsBudget usableBudget ([] : List (ScoredMemory α)) = true := by
    simp [selectionFitsBudget, selectionRawAndWrap, memorySeparatorTokens, hpos.le]
  exact Greedy.refill_fits _ (Greedy.dropUntil_fits hempty (Nat.le_refl _))

end

variable [Sums α]

variable {usableBudget : Int} {scored : List (ScoredMemory α)}

theorem trimPackedForWrap_eq (kind : EstimateKind) (nonce : Text) (costById : Dict) (scored : List (ScoredMemory α))
    (hpos : 0 < usableBudget) (packed : PackedMemories α) :
    let ctx : WrapCostContext := ⟨kind, nonce, packed.tokenEstimates, some costById⟩
    let refilled := wrapRefilled ctx scored usableBudget packed
    let droppedIds := (idsOf packed.memories ∪ packed.budgetExcludedIds) \ idsOf refilled
    trimPackedForWrap kind nonce costById scored usableBudget packed =
      if droppedIds = ∅ ∧ refilled.length = packed.memories.length then packed
      else rebuildAfterWrapTrim ctx costById packed refilled droppedIds := by
  intro ctx refilled droppedIds
  have hdropped : droppedAfterRefill (ctx.dropUntilWrapFits packed.memories usableBudget).1 refilled
      packed.budgetExcludedIds (idsOf (ctx.dropUntilWrapFits packed.memories usableBudget).2) = droppedIds :=
    droppedAfterRefill_eq (Greedy.dropUntil_perm _ _) refilled packed.budgetExcludedIds
  rw [trimPackedForWrap, if_neg (Int.not_le.2 hpos), ← hdropped]
  rfl

section

variable {packed : PackedMemories α} (hids : (scored.map (·.memoryId)).Nodup) (hpos : 0 < usableBudget)
  (h : PackedFrom scored usableBudget packed.memories)
include hids hpos h

theorem trimPackedForWrap_perm {kind : EstimateKind} {nonce : Text} {costById : Dict} :
    (trimPackedForWrap kind nonce costById scored usableBudget packed).memories.Perm
      (wrapRefilled ⟨kind, nonce, packed.tokenEstimates, some costById⟩ scored usableBudget packed) := by
  rw [trimPackedForWrap_eq kind nonce costById scored hpos packed]
  split
  next hsame =>
    have hcover := Finset.union_subset_left (Finset.sdiff_eq_empty_iff_subset.1 hsame.1)
    exact perm_of_idsOf_subset hids h.nodup h.subset (wrapRefilled_subset h.subset) hcover hsame.2
  next => exact List.Perm.refl _

theorem trimPackedForWrap_fits {kind : EstimateKind} {nonce : Text} {costById : Dict} :
    (trimPackedForWrap kind nonce costById scored usableBudget packed).memories ⊆ scored ∧
      selectionFitsBudget ⟨kind, nonce, packed.tokenEstimates, some costById⟩ usableBudget
        (trimPackedForWrap kind nonce costById scored usableBudget packed).memories = true := by
  have hperm : (trimPackedForWrap kind nonce costById scored usableBudget packed).memories.Perm _ :=
    trimPackedForWrap_perm hids hpos h
  refine ⟨fun m hm => wrapRefilled_subset h.subset (hperm.mem_iff.1 hm), ?_⟩
  rw [selectionFitsBudget_perm _ _ hperm]
  exact wrapRefilled_fits hpos

end

/-! ## Packing and trimming -/

variable [Add α] [Zero α]

theorem packScored_ok (settings : ContextSettings) (kind : EstimateKind)
    (hids : (scored.map (·.memoryId)).Nodup) (h : 0 ≤ usableBudget) :
    ∃ packed, packScored settings kind scored usableBudget = .ok packed ∧ (((packed.memories.map
          (estimateWrappedMemoryTokens kind (representativeNonce settings.formatterNonceBytes))).sum +
        memorySeparatorTokens kind packed.memories.length : Nat) : Int) ≤ usableBudget := by
  obtain ⟨packed, hpack, hfrom⟩ := pack_ok (makePacker settings kind) scored usableBudget
    (some (wrapAwareCosts kind (representativeNonce settings.formatterNonceBytes) scored)) hids
  refine ⟨_, by rw [packScored, hpack]; rfl, ?_⟩
  rcases h.eq_or_lt with rfl | hpos
  · rw [trimPackedForWrap, if_pos (Int.le_refl 0), hfrom.empty (Int.le_refl 0)]
    simp [memorySeparatorTokens]
  · obtain ⟨hsub, hfits⟩ := trimPackedForWrap_fits hids hpos hfrom
    exact wrapped_le_of_fits hids hsub hfits

end

end IbexHarness.Context
