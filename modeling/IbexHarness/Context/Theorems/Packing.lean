import Mathlib
import IbexHarness.Context.Lemmas.Accounting
import IbexHarness.Context.Lemmas.Optimal
import IbexHarness.Context.Theorems

/-! `_pack_scored` reports what it selects and leaves nothing out that fits. -/

namespace IbexHarness.Context

open Lib List

variable {α : Type} [LinearOrder α] [Add α] [Zero α] [Sums α]

/-- Packing always succeeds. The memories fit the budget with their tags and line breaks, nothing that was left out
fits beside them, and the numbers and ids that come with them are theirs. -/
theorem packScored_maximal (settings : ContextSettings) (kind : EstimateKind) {scored : List (ScoredMemory α)}
    (hids : (scored.map (·.memoryId)).Nodup) {usableBudget : Int} (hpos : 0 < usableBudget) :
    let nonce := representativeNonce settings.formatterNonceBytes
    ∃ packed, packScored settings kind scored usableBudget = .ok packed ∧
      packed.memories ⊆ scored ∧ (packed.memories.map (·.memoryId)).Nodup ∧
      (wrappedTokens kind nonce packed.memories : Int) ≤ usableBudget ∧
      (∀ m ∈ scored, m ∉ packed.memories → usableBudget < (wrappedTokens kind nonce (packed.memories ++ [m]) : Int)) ∧
      packed.skippedCount = scored.length - packed.memories.length ∧
      (packed.wasBudgetReached = true ↔ 0 < packed.skippedCount) ∧
      ∀ m ∈ packed.memories, m.memoryId ∉ packed.budgetExcludedIds := by
  intro nonce
  obtain ⟨packed, hpack, hfrom⟩ := pack_ok (makePacker settings kind) scored usableBudget
    (some (wrapAwareCosts kind nonce scored)) hids
  obtain ⟨hacc, henough⟩ := pack_accounted hids hpack
  have hestimates : ∀ m ∈ scored, packed.tokenEstimates.get m.memoryId = some (kind.estimateTokens m.content) :=
    fun m hm => pack_tokenEstimates hids hpack hm
  have henough' : ExcludedEnough (wrapAwareCost kind nonce) scored usableBudget packed :=
    henough.congr hfrom.subset fun _ hm => packCost_wrapAwareCosts _ hids hm
  have hacc' := trimPackedForWrap_accounted hids hpos hfrom hacc henough' hestimates
  have hperm : (trimPackedForWrap kind nonce (wrapAwareCosts kind nonce scored) scored usableBudget
    packed).memories.Perm
    _ := trimPackedForWrap_perm hids hpos hfrom
  obtain ⟨hsub, hfits⟩ := trimPackedForWrap_fits hids hpos hfrom
  refine ⟨_, Except.bind_eq_ok.2 ⟨packed, hpack, rfl⟩, hsub, ?_, (selectionFitsBudget_iff hids hestimates hsub).1 hfits,
    ?_, hacc'.skipped, hacc'.reached, ?_⟩
  · exact (hperm.map _).nodup_iff.2 (wrapRefilled_nodup hfrom.nodup)
  · intro m hm hnot
    have hleft : m.memoryId ∉ idsOf (wrapRefilled ⟨kind, nonce, packed.tokenEstimates,
        some (wrapAwareCosts kind nonce scored)⟩ scored usableBudget packed) := by
      rw [← idsOf_perm hperm]
      exact mt (mem_of_mem_idsOf hids hsub hm) hnot
    have hover := wrapRefilled_maximal hm hleft
    rw [← WrapCostContext.selectionFitsBudget_perm _ _ (hperm.append_right [m]), Bool.eq_false_iff, Ne,
      selectionFitsBudget_iff hids hestimates (append_subset.2 ⟨hsub, by simpa using hm⟩)] at hover
    exact Int.not_le.1 hover
  · intro m hm hin
    exact (Finset.mem_sdiff.1 (hacc'.excluded hin)).2 (mem_idsOf.2 ⟨m, hm, rfl⟩)

section Example

/-- The table is out of reach and the greedy loop stops at the first memory that does not fit. -/
def greedySettings : ContextSettings :=
  { sampleSettings with packerDpCellCeiling := 1, packerMaxConsecutiveSkips := 0, ceiling_pos := Nat.one_pos }

def greedyScored : List (ScoredMemory Nat) :=
  [⟨"a".toList, "tea".toList, "preference".toList, 9⟩, ⟨"b".toList, List.replicate 200 'x', "factual".toList, 5⟩,
    ⟨"c".toList, "milk".toList, "preference".toList, 1⟩]

/-- The loop stops at `b`; the trim adds `c`, which it had not looked at. -/
theorem packScored_maximal_sample : ∃ packed, packScored greedySettings .runesDiv35 greedyScored 60 = .ok packed ∧
      packed.memories.map (·.memoryId) = ["a".toList, "c".toList] ∧ packed.skippedCount = 1 ∧
      packed.wasBudgetReached = true := by
  have hids : (greedyScored.map (·.memoryId)).Nodup := by decide
  obtain ⟨packed, hpack, -, -, -, -, hskipped, hreached, -⟩ :=
    packScored_maximal greedySettings .runesDiv35 hids (by decide : (0 : Int) < 60)
  have hmemories : (packScored greedySettings .runesDiv35 greedyScored 60).toOption.map
      (fun packed => packed.memories.map (·.memoryId)) = some ["a".toList, "c".toList] := by decide +kernel
  rw [hpack] at hmemories
  have hlist := Option.some.inj hmemories
  have hlen := congrArg List.length hlist
  rw [length_map] at hlen
  rw [hlen] at hskipped
  exact ⟨packed, hpack, hlist, hskipped, hreached.2 (hskipped ▸ by decide)⟩

end Example

/-! ## Scores -/

section
variable (p : ContextPacker) {scored : List (ScoredMemory ℚ)} {tokenBudget : Int} {costById : Option Dict}

/-- For costs and a budget of whole buckets the total score is the greatest of all selections that fit. -/
theorem pack_optimal_of_whole_buckets (hscores : ∀ m ∈ scored, 0 ≤ m.compositeScore) (hpos : 0 < tokenBudget)
    (hbudget : (p.bucketSize : Int) ∣ tokenBudget) (hcosts : ∀ m ∈ scored, p.bucketSize ∣ p.packCost costById m)
    (hcells : scored.length * (tokenBudget.toNat / p.bucketSize + 1) ≤ p.dpCellCeiling) :
    ∃ packed, p.pack scored tokenBudget costById = .ok packed ∧
      IsGreatest (p.feasibleScores scored tokenBudget costById) packed.totalScore := by
  obtain ⟨packed, hpack⟩ := p.exists_pack scored tokenBudget costById
  have hone : 1 ≤ tokenBudget.toNat / p.bucketSize := by
    have hle := Int.le_of_dvd hpos hbudget
    exact Nat.div_pos (by omega) p.bucketSize_pos
  have hpath : packed.path = .dp := ContextPacker.path_eq_dp hpack (by rwa [Nat.max_eq_right hone])
  exact ⟨packed, hpack, ContextPacker.pack_isGreatest hpack hpos hpath hscores (.of_dvd hpos hbudget hcosts)⟩

theorem one_le_bucketSize : 1 ≤ bucketSize := by decide

def defaultDpCellCeiling : Nat := 70 * 6251

def defaultMaxConsecutiveSkips : Nat := 5

def defaultPacker (kind : EstimateKind) : ContextPacker where
  kind
  bucketSize := bucketSize
  dpCellCeiling := defaultDpCellCeiling
  maxConsecutiveSkips := defaultMaxConsecutiveSkips
  bucketSize_pos := one_le_bucketSize
  dpCellCeiling_pos := by decide

/-- A memory of a score and four characters for each token. -/
def sampleCost (id : Char) (tokens : Nat) (score : ℚ) :
    ScoredMemory ℚ := ⟨[id], List.replicate (4 * tokens) 'x', ['f'], score⟩

/-- The greedy path takes the first and leaves the other two, which are worth more. -/
def wholeScored : List (ScoredMemory ℚ) := [sampleCost 'a' 48 1, sampleCost 'b' 16 (2 / 5), sampleCost 'c' 32 (4 / 5)]

theorem pack_optimal_of_whole_buckets_sample :
    ∃ packed, (defaultPacker .charsDiv4).pack wholeScored 48 none = .ok packed ∧ 6 / 5 ≤ packed.totalScore := by
  have hscores : ∀ m ∈ wholeScored, 0 ≤ m.compositeScore := by decide +kernel
  have hcosts : ∀ m ∈ wholeScored, (defaultPacker .charsDiv4).bucketSize ∣ (defaultPacker .charsDiv4).packCost none
    m := by
    decide +kernel
  obtain ⟨packed, hpack, hgreatest⟩ :=
    pack_optimal_of_whole_buckets _ hscores (by decide : (0 : Int) < 48) (by decide) hcosts (by decide)
  refine ⟨packed, hpack, hgreatest.2 ⟨[sampleCost 'b' 16 (2 / 5), sampleCost 'c' 32 (4 / 5)], ?_, ?_, ?_⟩⟩
  · exact sublist_cons_self _ _
  · decide +kernel
  · decide +kernel

end

section Example

end Example

/-! ## Order -/

section Order
variable {scored : List (ScoredMemory α)} {usableBudget : Int}

end Order

/-! ## The table itself -/

section
variable {β : Type} (items : List (Nat × β)) (buckets : Nat)

theorem sum_dpSelect {M : Type} [AddCommMonoid M] [LinearOrder β] [AddCommMonoid β] (f : Nat × β → M) :
    ((dpSelect (fun i => (items.get i).1) (fun i => (items.get i).2) buckets).map fun i => f (items.get i)).sum =
      ((Knapsack.choose Prod.fst Prod.snd items.reverse buckets).map f).sum := by
  have hmap := congrArg (fun l => (l.map f).sum) (dpSelect_map items Prod.fst Prod.snd buckets)
  simp only [map_map, map_reverse, sum_reverse] at hmap
  exact hmap

theorem exists_sublist_sum (s : Finset (Fin items.length)) : ∃ l : List (Nat × β), l.Sublist items ∧
      ∀ {M : Type} [AddCommMonoid M] (f : Nat × β → M), (l.map f).sum = ∑ i ∈ s, f (items.get i) := by
  refine ⟨((finRange items.length).filter (· ∈ s)).map items.get, ?_, fun f => ?_⟩
  · have hsub := (filter_sublist (p := (· ∈ s)) (l := finRange items.length)).map items.get
    rwa [map_get_finRange] at hsub
  · have hs : ((finRange items.length).filter (· ∈ s)).toFinset = s := by
      ext i
      simp
    rw [map_map, ← sum_toFinset _ ((nodup_finRange _).filter _), hs]
    rfl

end

/-- `items` are the weights and the values, zipped. -/
theorem dpSelect_isGreatest (items : List (Nat × ℚ)) (buckets : Nat) :
    let selected := dpSelect (fun i => (items.get i).1) (fun i => (items.get i).2) buckets
    selected.Pairwise (· < ·) ∧ (selected.map fun i => (items.get i).1).sum ≤ buckets ∧
      IsGreatest {v | ∃ s : Finset (Fin items.length), ∑ i ∈ s, (items.get i).1 ≤ buckets ∧ ∑ i ∈ s, (items.get i).2 =
        v}
        (selected.map fun i => (items.get i).2).sum := by
  intro selected
  have hweight : (selected.map fun i => (items.get i).1).sum ≤ buckets := by
    rw [sum_dpSelect items buckets Prod.fst]
    exact Knapsack.choose_weight _ _
  refine ⟨dpSelect_increasing _ _ _, hweight, ⟨selected.toFinset, ?_, ?_⟩, ?_⟩
  · rwa [sum_toFinset _ (dpSelect_nodup _ _ _)]
  · rw [sum_toFinset _ (dpSelect_nodup _ _ _)]
  · rintro v ⟨s, hs, rfl⟩
    obtain ⟨l, hl, hsum⟩ := exists_sublist_sum items s
    rw [← hsum Prod.fst] at hs
    rw [← hsum Prod.snd, sum_dpSelect items buckets Prod.snd, Knapsack.choose_value, ← sum_reverse, ← map_reverse]
    refine Knapsack.sum_le_best (reverse_sublist.2 hl) ?_
    rwa [map_reverse, sum_reverse]

end IbexHarness.Context
