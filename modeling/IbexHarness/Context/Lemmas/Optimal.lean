import IbexHarness.Context.Lemmas.Packing
import IbexHarness.Lib.Knapsack
import Mathlib.Algebra.BigOperators.Ring.List
import Mathlib.Algebra.Ring.Nat

/-! The rows and flags of the table are those of the knapsack over the candidates. -/

namespace IbexHarness.Context

open Lib Knapsack List

section

section
variable {β : Type}

def tableRow (buckets : Nat) (row : Nat → β) : List β := (List.range (buckets + 1)).map row

theorem tableRow_congr {buckets : Nat} {row row' : Nat → β} (h : ∀ c ≤ buckets, row c = row' c) :
    tableRow buckets row = tableRow buckets row' :=
  map_congr_left fun c hc => h c (Nat.lt_succ_iff.1 (mem_range.1 hc))

theorem tableRow_getD {buckets c : Nat} (h : c ≤ buckets) (row : Nat → β) (d : β) :
    (tableRow buckets row).getD c d = row c := by
  simp [tableRow, getD_eq_getElem?_getD, Nat.lt_succ_of_le h]

theorem tableRow_const (buckets : Nat) (x : β) : List.replicate (buckets + 1) x = tableRow buckets fun _ => x := by
  simp [tableRow, map_const']

end

variable {α : Type} [Add α]

theorem append_zipWith_eq {β : Type} {buckets w : Nat} (hw : w ≤ buckets) {row : Nat → α} {v : α} {f : α → α → β}
    {below : List β} {g : Nat → β} (hlen : below.length = w) (hbelow : ∀ c (h : c < w), below.get ⟨c, hlen ▸ h⟩ = g c)
    (hfrom : ∀ c, w ≤ c → f (row (c - w) + v) (row c) = g c) :
    below ++ List.zipWith f (((tableRow buckets row).take (buckets + 1 - w)).map (· + v))
      ((tableRow buckets row).drop w) = tableRow buckets g := by
  refine ext_getElem ?_ fun c hleft hright => ?_
  · simp [tableRow, hlen]
    omega
  · rw [getElem_append]
    split
    next hc =>
      rw [hlen] at hc
      simpa [tableRow] using hbelow c hc
    next hc =>
      rw [hlen] at hc
      simpa [tableRow, hlen, Nat.add_sub_cancel' (Nat.le_of_not_lt hc)] using hfrom c (Nat.le_of_not_lt hc)

variable [LinearOrder α]

theorem dpRow_tableRow (buckets : Nat) (row : Nat → α) (w : Nat) (v : α) :
    dpRow (tableRow buckets row) w v buckets = (tableRow buckets (step row w v), tableRow buckets (keeps row w v)) := by
  unfold dpRow
  split
  next hzero =>
    subst hzero
    simp [tableRow, step, keeps]
  next =>
    split
    next hlarge =>
      have hkeeps : ∀ c ≤ buckets, keeps row w v c = false := fun c hc => by
        rw [keeps, decide_eq_false (by omega), Bool.false_and]
      rw [tableRow_const]
      refine Prod.ext (tableRow_congr fun c hc => ?_) (tableRow_congr fun c hc => (hkeeps c hc).symm)
      rw [step, hkeeps c hc, if_neg Bool.false_ne_true]
    next hsmall =>
      have hbelow : ∀ c < w, keeps row w v c = false := fun c hc => by
        rw [keeps, decide_eq_false (by omega), Bool.false_and]
      have hfrom : ∀ c, w ≤ c → keeps row w v c = decide (row c < row (c - w) + v) := fun c hc => by
        rw [keeps, decide_eq_true hc, Bool.true_and]
      refine Prod.ext (append_zipWith_eq (Nat.le_of_not_lt hsmall) ?_ (fun c hc => ?_) fun c hc => ?_)
        (append_zipWith_eq (Nat.le_of_not_lt hsmall) length_replicate (fun c hc => ?_) fun c hc => ?_)
      · simp [tableRow]
        omega
      · simp [tableRow, step, hbelow c hc]
      · simp [step, hfrom c hc]
      · simp [hbelow c hc]
      · exact (hfrom c hc).symm

theorem dpKeep_getD (buckets : Nat) {items : List (Nat × α)} (row : Nat → α) {i : Nat} (hi : i < items.length) :
    (dpKeep buckets (tableRow buckets row) items).getD i [] =
      tableRow buckets (keeps ((items.take i).foldl (fun row item => step row item.1 item.2) row) items[i].1
        items[i].2) := by
  induction items generalizing row i with
  | nil => exact absurd hi (Nat.not_lt_zero i)
  | cons item items ih =>
    simp only [dpKeep, dpRow_tableRow]
    cases i with
    | zero => rfl
    | succ i => exact ih _ (Nat.lt_of_succ_lt_succ hi)

section
variable [Zero α] {ι : Type} {candidates : List ι} {weight : ι → Nat} {value : ι → α} {buckets : Nat}

theorem dpBacktrack_map {keep : List (List Bool)}
    (hkeep : ∀ (i : Nat) (h : i < candidates.length), ∀ c ≤ buckets, (keep.getD i []).getD c false =
      keeps (best weight value (candidates.take i).reverse) (weight candidates[i]) (value candidates[i]) c)
    {i : Nat} (h : i ≤ candidates.length) {capacity : Nat} (hcap : capacity ≤ buckets) :
    (dpBacktrack keep (fun j => weight (candidates.get j)) i h capacity).map candidates.get =
      choose weight value (candidates.take i).reverse capacity := by
  induction i generalizing capacity with
  | zero => rfl
  | succ i ih =>
    rw [take_succ_eq_append_getElem h, reverse_append, reverse_singleton, singleton_append, Knapsack.choose,
      dpBacktrack, hkeep i h capacity hcap]
    split
    · rw [map_cons, ih _ ((Nat.sub_le _ _).trans hcap)]
      rfl
    · exact ih _ hcap

theorem dpSelect_map (candidates : List ι) (weight : ι → Nat) (value : ι → α) (buckets : Nat) :
    (dpSelect (fun i => weight (candidates.get i)) (fun i => value (candidates.get i)) buckets).map candidates.get =
      (choose weight value candidates.reverse buckets).reverse := by
  have hitems : (List.ofFn fun i => (weight (candidates.get i), value (candidates.get i))) =
      candidates.map fun x => (weight x, value x) := by
    conv_rhs => rw [← ofFn_get candidates, map_ofFn]
    rfl
  have hkeep : ∀ (i : Nat) (h : i < candidates.length), ∀ c ≤ buckets,
      ((dpKeep buckets (tableRow buckets fun _ => 0) (candidates.map fun x => (weight x, value x))).getD i []).getD c
        false =
        keeps (best weight value (candidates.take i).reverse) (weight candidates[i]) (value candidates[i]) c := by
    intro i h c hc
    rw [dpKeep_getD buckets _ (by simpa using h), tableRow_getD hc, best_reverse, ← map_take, foldl_map,
      getElem_map]
  have hback := dpBacktrack_map hkeep le_rfl le_rfl
  rw [take_length] at hback
  rw [dpSelect, hitems, tableRow_const, map_reverse, hback]

end

end

section

variable {α : Type} [AddCommMonoid α]

theorem total_eq_sum (values : List α) : total values = values.sum := rfl

section
variable {n : Nat} (candidates : Fin n → ScoredMemory α) {tokens : Fin n → Nat} {tokenBudget : Nat}

theorem selectionValue_eq_sum (selected : List (Fin n)) :
    selectionValue candidates selected = ((selected.map candidates).map (·.compositeScore)).sum := by
  rw [selectionValue, total_eq_sum, map_map]
  rfl

variable [LinearOrder α] [IsOrderedAddMonoid α]

theorem greedyRefill_value (hscores : ∀ i, 0 ≤ (candidates i).compositeScore) (chosen exclude : List (Fin n)) :
    selectionValue candidates chosen ≤
      selectionValue candidates (greedyRefill candidates tokens tokenBudget chosen exclude) := by
  rw [greedyRefill, refillLoop_eq _ _ _ _ rfl, selectionValue_eq_sum, selectionValue_eq_sum]
  refine (((Greedy.sublist_refill _ _).map _).map _).sum_le_sum fun x hx => ?_
  obtain ⟨m, hm, rfl⟩ := mem_map.1 hx
  obtain ⟨i, -, rfl⟩ := mem_map.1 hm
  exact hscores i

theorem repairExactBudget_value (hscores : ∀ i, 0 ≤ (candidates i).compositeScore) {selected : List (Fin n)}
    (hfits : selectionTokens tokens selected ≤ tokenBudget) :
    selectionValue candidates selected ≤
      selectionValue candidates (repairExactBudget candidates tokens tokenBudget selected) := by
  have hdrop : dropOverBudget candidates tokens tokenBudget selected = (selected, false) := by
    rw [dropOverBudget, Greedy.dropUntil_of_fits (decide_eq_true hfits)]
    rfl
  have hrefill : selectionValue candidates selected ≤
      selectionValue candidates (greedyRefill candidates tokens tokenBudget selected []) :=
    greedyRefill_value candidates hscores selected []
  unfold repairExactBudget
  rw [hdrop]
  dsimp only
  split
  · exact hrefill.trans (localImproveSelection_value candidates _)
  · exact hrefill

end

theorem eq_zero_or_le_of_dvd {cost bucketSize : Nat} (h : bucketSize ∣ cost) : cost = 0 ∨ bucketSize ≤ cost :=
  (Nat.eq_zero_or_pos cost).imp_right fun hpos => Nat.le_of_dvd hpos h

theorem bucketWeight_eq {cost bucketSize : Nat} (h : cost = 0 ∨ bucketSize ≤ cost) (hpos : 1 ≤ bucketSize) :
    bucketWeight cost bucketSize = cost / bucketSize := by
  rw [bucketWeight]
  split
  next hzero => rw [hzero, Nat.zero_div]
  next hne => exact Nat.max_eq_right (Nat.div_pos (h.resolve_left hne) hpos)

/-- A selection that fits the budget is within the weights of the table, unless a memory costs less than a bucket and
more than nothing. -/
theorem weight_le_of_cost_le {β : Type} {cost : β → Nat} {bucketSize tokenBudget : Nat} (hpos : 1 ≤ bucketSize)
    {s : List β} (hcosts : ∀ m ∈ s, cost m = 0 ∨ bucketSize ≤ cost m) (hfits : (s.map cost).sum ≤ tokenBudget) :
    (s.map fun m => bucketWeight (cost m) bucketSize).sum ≤ max 1 (tokenBudget / bucketSize) := by
  have hsum : (s.map fun m => bucketWeight (cost m) bucketSize).sum * bucketSize ≤ (s.map cost).sum := by
    rw [← sum_map_mul_right]
    refine sum_le_sum fun m hm => ?_
    rw [bucketWeight_eq (hcosts m hm) hpos]
    exact Nat.div_mul_le_self _ _
  exact ((Nat.le_div_iff_mul_le hpos).2 (hsum.trans hfits)).trans (Nat.le_max_right _ _)

theorem cost_le_of_weight_le {β : Type} {cost : β → Nat} {bucketSize tokenBudget : Nat} (hpos : 1 ≤ bucketSize)
    (hbudget : 0 < tokenBudget) (hwhole : bucketSize ∣ tokenBudget) {s : List β} (hcosts : ∀ m ∈ s, bucketSize ∣ cost m)
    (hweight : (s.map fun m => bucketWeight (cost m) bucketSize).sum ≤ max 1 (tokenBudget / bucketSize)) :
    (s.map cost).sum ≤ tokenBudget := by
  have hone : 1 ≤ tokenBudget / bucketSize := Nat.div_pos (Nat.le_of_dvd hbudget hwhole) hpos
  rw [Nat.max_eq_right hone] at hweight
  have hcost : ∀ m ∈ s, bucketWeight (cost m) bucketSize * bucketSize = cost m := by
    intro m hm
    rw [bucketWeight_eq (eq_zero_or_le_of_dvd (hcosts m hm)) hpos, Nat.div_mul_cancel (hcosts m hm)]
  rw [← map_congr_left hcost, sum_map_mul_right]
  exact (Nat.mul_le_mul_right _ hweight).trans (Nat.div_mul_le_self _ _)

namespace ContextPacker

def feasibleScores (p : ContextPacker) (scored : List (ScoredMemory α)) (tokenBudget : Int) (costById : Option Dict) :
    Set α :=
  {x | ∃ s : List (ScoredMemory α), s.Sublist scored ∧ (((s.map (p.packCost costById)).sum : Nat) : Int) ≤ tokenBudget ∧
    x = (s.map (·.compositeScore)).sum}

variable {p : ContextPacker} {scored : List (ScoredMemory α)} {tokenBudget : Int} {costById : Option Dict}

theorem selectionValue_mem {candidates : List (ScoredMemory α)} (hperm : candidates.Perm scored)
    (hpos : 0 < tokenBudget)
    {selected : List (Fin candidates.length)}
    (h : Feasible (fun i => p.packCost costById (candidates.get i)) tokenBudget.toNat selected) :
    selectionValue candidates.get selected ∈ p.feasibleScores scored tokenBudget costById := by
  obtain ⟨s, hs, hsub⟩ := (map_get_subperm h.nodup).trans hperm.subperm
  refine ⟨s, hsub, ?_, ?_⟩
  · rw [(hs.map _).sum_eq, map_map]
    exact (Int.le_toNat hpos.le).1 h.fits
  · rw [selectionValue_eq_sum, (hs.map _).sum_eq]

/-- A selection that fits as the table counts: in whole buckets, of which a memory takes one at least. -/
def InBuckets (p : ContextPacker) (scored : List (ScoredMemory α)) (tokenBudget : Int) (costById : Option Dict)
    (s : List (ScoredMemory α)) : Prop :=
  s.Sublist scored ∧ (s.map fun m => bucketWeight (p.packCost costById m) p.bucketSize).sum ≤
    max 1 (tokenBudget.toNat / p.bucketSize)

variable [LinearOrder α]

/-- Counting in buckets loses nothing: of the selections that fit in buckets the best ones fit the budget, and none that
fits the budget is better than all of them. -/
structure BucketsSuffice (p : ContextPacker) (scored : List (ScoredMemory α)) (tokenBudget : Int)
    (costById : Option Dict) : Prop where
  fits : ∀ s, p.InBuckets scored tokenBudget costById s →
    (∀ s', p.InBuckets scored tokenBudget costById s' →
      (s'.map (·.compositeScore)).sum ≤ (s.map (·.compositeScore)).sum) →
    (s.map (p.packCost costById)).sum ≤ tokenBudget.toNat
  covers : ∀ s : List (ScoredMemory α), s.Sublist scored → (s.map (p.packCost costById)).sum ≤ tokenBudget.toNat →
    ∃ s', p.InBuckets scored tokenBudget costById s' ∧
      (s.map (·.compositeScore)).sum ≤ (s'.map (·.compositeScore)).sum

theorem BucketsSuffice.of_dvd (hpos : 0 < tokenBudget) (hbudget : (p.bucketSize : Int) ∣ tokenBudget)
    (hcosts : ∀ m ∈ scored, p.bucketSize ∣ p.packCost costById m) : p.BucketsSuffice scored tokenBudget costById where
  fits s hs _ := by
    have hwhole : p.bucketSize ∣ tokenBudget.toNat := Int.natCast_dvd_natCast.1 (by rwa [Int.toNat_of_nonneg hpos.le])
    exact cost_le_of_weight_le p.bucketSize_pos (Int.lt_toNat.2 hpos) hwhole (fun m hm => hcosts m (hs.1.subset hm))
      hs.2
  covers s hs hcost := by
    refine ⟨s, ⟨hs, ?_⟩, le_rfl⟩
    exact weight_le_of_cost_le p.bucketSize_pos (fun m hm => eq_zero_or_le_of_dvd (hcosts m (hs.subset hm))) hcost

def tableChoice (p : ContextPacker) (scored : List (ScoredMemory α)) (tokenBudget : Int) (costById : Option Dict) :
    List (ScoredMemory α) :=
  let candidates := scored.insertionSort RankLe
  (dpSelect (fun i => bucketWeight (p.packCost costById (candidates.get i)) p.bucketSize)
    (fun i => (candidates.get i).compositeScore) (max 1 (tokenBudget.toNat / p.bucketSize))).map candidates.get

variable {packed : PackedMemories α}

theorem tableChoice_perm : (p.tableChoice scored tokenBudget costById).Perm
    (choose (fun m => bucketWeight (p.packCost costById m) p.bucketSize) (·.compositeScore)
      (scored.insertionSort RankLe).reverse (max 1 (tokenBudget.toNat / p.bucketSize))) := by
  rw [tableChoice, dpSelect_map _ (fun m => bucketWeight (p.packCost costById m) p.bucketSize) (·.compositeScore)]
  exact reverse_perm _

theorem tableChoice_inBuckets : ∃ s, s.Perm (p.tableChoice scored tokenBudget costById) ∧
    p.InBuckets scored tokenBudget costById s := by
  obtain ⟨s, hperm, hsub⟩ : (p.tableChoice scored tokenBudget costById).Subperm scored :=
    tableChoice_perm.subperm.trans ((choose_sublist _ _).subperm.trans
      ((reverse_perm _).trans (perm_insertionSort RankLe scored)).subperm)
  refine ⟨s, hperm, hsub, ?_⟩
  rw [(hperm.map _).sum_eq, (tableChoice_perm.map _).sum_eq]
  exact choose_weight _ _

theorem path_eq_dp (hpack : p.pack scored tokenBudget costById = .ok packed)
    (hcells : scored.length * (max 1 (tokenBudget.toNat / p.bucketSize) + 1) ≤ p.dpCellCeiling) : packed.path =
      .dp := by
  rcases pack_cases hpack with ⟨-, rfl⟩ | ⟨-, hfinal⟩
  · rfl
  · rw [← length_insertionSort RankLe scored] at hcells
    rw [hfinal.path, selection, selectUnderBudget, if_neg (Nat.not_lt.2 hcells)]

theorem selection_of_dp (h : (p.selection scored tokenBudget costById).2.1 = .dp) :
    (p.selection scored tokenBudget costById).1 = repairExactBudget (scored.insertionSort RankLe).get
        (fun i => p.packCost costById ((scored.insertionSort RankLe).get i)) tokenBudget.toNat
        (dpSelect (fun i => bucketWeight (p.packCost costById ((scored.insertionSort RankLe).get i)) p.bucketSize)
          (fun i => ((scored.insertionSort RankLe).get i).compositeScore)
          (max 1 (tokenBudget.toNat / p.bucketSize))) := by
  unfold selection selectUnderBudget at h ⊢
  dsimp only at h ⊢
  split
  next hcells =>
    rw [if_pos hcells] at h
    cases h
  next => rfl

theorem Finalized.totalScore_eq (h : p.Finalized scored tokenBudget costById packed) : packed.totalScore =
      selectionValue (scored.insertionSort RankLe).get (p.selection scored tokenBudget costById).1 := by
  rw [h.totalScore, total_eq_sum, selectionValue_eq_sum, (h.perm.map _).sum_eq]

variable [IsOrderedAddMonoid α]

theorem sum_le_tableChoice {s : List (ScoredMemory α)} (h : p.InBuckets scored tokenBudget costById s) :
    (s.map (·.compositeScore)).sum ≤ ((p.tableChoice scored tokenBudget costById).map (·.compositeScore)).sum := by
  obtain ⟨h, hweight⟩ := h
  have hsubperm : s.Subperm (scored.insertionSort RankLe).reverse :=
    h.subperm.trans ((perm_insertionSort RankLe scored).symm.trans (reverse_perm _).symm).subperm
  obtain ⟨s', hperm, hsub⟩ := hsubperm
  rw [← (hperm.map _).sum_eq] at hweight ⊢
  rw [(tableChoice_perm.map _).sum_eq, choose_value]
  exact sum_le_best hsub hweight

theorem pack_isGreatest (hpack : p.pack scored tokenBudget costById = .ok packed) (hpos : 0 < tokenBudget)
    (hpath : packed.path = .dp) (hscores : ∀ m ∈ scored, 0 ≤ m.compositeScore)
    (hbuckets : p.BucketsSuffice scored tokenBudget costById) :
    IsGreatest (p.feasibleScores scored tokenBudget costById) packed.totalScore := by
  rcases pack_cases hpack with ⟨hempty, rfl⟩ | ⟨-, hfinal⟩
  · obtain rfl := hempty.resolve_right (Int.not_le.2 hpos)
    refine ⟨⟨[], .slnil, hpos.le, rfl⟩, ?_⟩
    rintro x ⟨s, hsub, -, rfl⟩
    rw [sublist_nil.1 hsub]
    exact le_rfl
  · refine ⟨hfinal.totalScore_eq ▸ selectionValue_mem (perm_insertionSort _ _) hpos selection_feasible, ?_⟩
    rintro x ⟨s, hsub, hcost, rfl⟩
    obtain ⟨s', hs', hle⟩ := hbuckets.covers s hsub ((Int.le_toNat hpos.le).2 hcost)
    -- the table's choice is one of the best in buckets, so nothing has to be dropped from it
    obtain ⟨best, hperm, hbest⟩ : ∃ best, List.Perm best (p.tableChoice scored tokenBudget costById) ∧ _ :=
      tableChoice_inBuckets
    have hfits := hbuckets.fits best hbest fun t ht =>
      (sum_le_tableChoice ht).trans_eq (hperm.map _).sum_eq.symm
    rw [(hperm.map _).sum_eq, tableChoice, map_map] at hfits
    rw [hfinal.totalScore_eq, selection_of_dp (hfinal.path.symm.trans hpath)]
    refine (hle.trans (sum_le_tableChoice hs')).trans ?_
    rw [tableChoice, ← selectionValue_eq_sum]
    refine repairExactBudget_value _ (fun i => hscores _ ?_) hfits
    exact (perm_insertionSort _ _).mem_iff.1 (get_mem _ i)

end ContextPacker

end

end IbexHarness.Context
