import IbexHarness.Context.Assemble
import Mathlib.Algebra.Order.BigOperators.Group.List
import Mathlib.Algebra.Order.Group.Nat

/-! The key `(-composite_score, memory_id)` orders candidates totally, and strictly where their ids are distinct. -/

namespace IbexHarness.Context

open Lib List

section

variable {α : Type} [LinearOrder α] {a b c : ScoredMemory α}

theorem RankLe.trans (hab : RankLe a b) (hbc : RankLe b c) : RankLe a c := by
  rcases hab with hab | ⟨hab, hid⟩
  · rcases hbc with hbc | ⟨hbc, -⟩
    · exact .inl (hbc.trans hab)
    · exact .inl (hbc ▸ hab)
  · rcases hbc with hbc | ⟨hbc, hid'⟩
    · exact .inl (hab ▸ hbc)
    · exact .inr ⟨hab.trans hbc, le_trans hid hid'⟩

theorem RankLe.total (a b : ScoredMemory α) : RankLe a b ∨ RankLe b a := by
  rcases lt_trichotomy a.compositeScore b.compositeScore with h | h | h
  · exact .inr (.inl h)
  · rcases le_total a.memoryId b.memoryId with hid | hid
    · exact .inl (.inr ⟨h, hid⟩)
    · exact .inr (.inr ⟨h.symm, hid⟩)
  · exact .inl (.inl h)

theorem RankLe.memoryId_eq (hab : RankLe a b) (hba : RankLe b a) : a.memoryId = b.memoryId := by
  rcases hab with hab | ⟨hab, hid⟩
  · rcases hba with hba | ⟨hba, -⟩
    · exact absurd hab hba.asymm
    · exact absurd hba hab.ne
  · rcases hba with hba | ⟨-, hid'⟩
    · exact absurd hab hba.ne
    · exact le_antisymm hid hid'

instance : IsTrans (ScoredMemory α) RankLe := ⟨fun _ _ _ => RankLe.trans⟩

instance : Std.Total (RankLe : ScoredMemory α → ScoredMemory α → Prop) := ⟨RankLe.total⟩

end

section

variable {α : Type}

theorem injective_memoryId_get {candidates : List (ScoredMemory α)} (h : (candidates.map (·.memoryId)).Nodup) :
    Function.Injective ((·.memoryId) ∘ candidates.get) := by
  intro i j hij
  have hget := inj_on_of_nodup_map h (get_mem candidates i) (get_mem candidates j) hij
  exact nodup_iff_injective_get.1 h.of_map hget

theorem map_get_subperm {l : List (ScoredMemory α)} {s : List (Fin l.length)} (h : s.Nodup) :
    (s.map l.get).Subperm l := by
  obtain ⟨t, hperm, hsub⟩ := h.subperm fun i _ => mem_finRange i
  have hget := hsub.map l.get
  rw [map_get_finRange] at hget
  exact ⟨t.map l.get, hperm.map _, hget⟩

variable [LinearOrder α]

section
variable {n : Nat} (candidates : Fin n → ScoredMemory α) {tokens : Fin n → Nat} {tokenBudget : Nat}

structure Feasible (tokens : Fin n → Nat) (tokenBudget : Nat) (selected : List (Fin n)) : Prop where
  nodup : selected.Nodup
  fits : selectionTokens tokens selected ≤ tokenBudget

@[simp] theorem selectionTokens_cons (i : Fin n) (s : List (Fin n)) :
    selectionTokens tokens (i :: s) = tokens i + selectionTokens tokens s := rfl

theorem selectionTokens_le_of_sublist {s t : List (Fin n)} (h : s.Sublist t) :
    selectionTokens tokens s ≤ selectionTokens tokens t :=
  (h.map tokens).sum_le_sum fun _ _ => Nat.zero_le _

theorem greedyLoop_sublist (maxSkips : Nat) (order : List (Fin n)) (used skips : Nat) :
    (greedyLoop tokens tokenBudget maxSkips order used skips).1.Sublist order := by
  fun_induction greedyLoop tokens tokenBudget maxSkips order used skips with
  | case1 => exact .slnil
  | case2 _ _ _ _ _ _ _ h ih =>
    rw [h] at ih
    exact ih.cons_cons _
  | case3 => exact nil_sublist _
  | case4 _ _ _ _ _ _ _ _ h ih =>
    rw [h] at ih
    exact ih.cons _

theorem greedyLoop_fits (maxSkips : Nat) (order : List (Fin n)) (used skips : Nat) (h : used ≤ tokenBudget) :
    used + selectionTokens tokens (greedyLoop tokens tokenBudget maxSkips order used skips).1 ≤ tokenBudget := by
  fun_induction greedyLoop tokens tokenBudget maxSkips order used skips with
  | case1 => exact h
  | case2 idx order used skips hfits _ _ hloop ih =>
    have hrest := ih hfits
    rw [hloop] at hrest
    rw [selectionTokens_cons, ← Nat.add_assoc]
    exact hrest
  | case3 => exact h
  | case4 _ _ _ _ _ _ _ _ hloop ih =>
    have hrest := ih h
    rw [hloop] at hrest
    exact hrest

theorem rankOrder_nodup : (rankOrder candidates).Nodup :=
  (perm_insertionSort _ _).nodup_iff.2 (nodup_finRange n)

theorem greedySelect_feasible (maxSkips : Nat) :
    Feasible tokens tokenBudget (greedySelect candidates tokens tokenBudget maxSkips).1 where
  nodup := (greedyLoop_sublist maxSkips _ 0 0).nodup (rankOrder_nodup candidates)
  fits := by
    rw [← Nat.zero_add (selectionTokens _ _)]
    exact greedyLoop_fits maxSkips (rankOrder candidates) 0 0 (Nat.zero_le tokenBudget)

theorem refillLoop_eq (exclude order out : List (Fin n)) (used : Nat) (hused : used = selectionTokens tokens out) :
    refillLoop tokens tokenBudget exclude order out used =
      Greedy.refill (fun s => selectionTokens tokens s ≤ tokenBudget) (fun out i => i ∈ out ∨ i ∈ exclude) out
        order := by
  induction order generalizing out used with
  | nil => rfl
  | cons idx order ih =>
    subst hused
    have hadd : selectionTokens tokens (out ++ [idx]) = selectionTokens tokens out + tokens idx := by
      simp [selectionTokens]
    rw [refillLoop, Greedy.refill_cons, hadd]
    by_cases hskip : idx ∈ out ∨ idx ∈ exclude
    · simp only [hskip, if_true, decide_true]
      exact ih out _ rfl
    · by_cases hfits : selectionTokens tokens out + tokens idx ≤ tokenBudget
      · simp only [hskip, hfits, if_true, if_false, decide_true, decide_false, Bool.false_eq_true]
        exact ih _ _ hadd.symm
      · simp only [hskip, hfits, if_false, decide_false, Bool.false_eq_true]
        exact ih out _ rfl

theorem greedyRefill_feasible {chosen : List (Fin n)} (h : Feasible tokens tokenBudget chosen)
    (exclude : List (Fin n)) :
    Feasible tokens tokenBudget (greedyRefill candidates tokens tokenBudget chosen exclude) := by
  rw [greedyRefill, refillLoop_eq _ _ _ _ rfl]
  refine Greedy.refill_induction (motive := Feasible tokens tokenBudget) h fun acc idx _ hacc hskip hfits => ?_
  rw [decide_eq_false_iff_not, not_or] at hskip
  exact ⟨hacc.nodup.append (nodup_singleton idx) (by simpa using hskip.1), of_decide_eq_true hfits⟩

theorem dropOverBudget_feasible {selected : List (Fin n)} (h : selected.Nodup) :
    Feasible tokens tokenBudget (dropOverBudget candidates tokens tokenBudget selected).1 where
  nodup := ((Greedy.dropUntil_perm _ _).nodup_iff.2 h).of_append_left
  fits := by
    have hnil : decide (selectionTokens tokens [] ≤ tokenBudget) = true := decide_eq_true (Nat.zero_le _)
    exact of_decide_eq_true (@Greedy.dropUntil_fits _ _ (fun s => decide (selectionTokens tokens s ≤ tokenBudget)) hnil
      _ selected (Nat.le_refl _))

theorem isBetterSelection_le {trial best : List (Fin n)} {trialValue bestValue : α}
    (h : isBetterSelection candidates trial best trialValue bestValue = true) : bestValue ≤ trialValue := by
  unfold isBetterSelection at h
  split at h
  next hlt => exact hlt.le
  next =>
    split at h
    next => exact absurd h Bool.false_ne_true
    next hge => exact le_of_not_gt hge

variable [Sums α]

theorem improveStep_feasible {best : List (Fin n)} (h : Feasible tokens tokenBudget best) (dropIdx : Fin n) :
    Feasible tokens tokenBudget (improveStep candidates tokens tokenBudget best dropIdx) := by
  have hfilter : Feasible tokens tokenBudget (best.filter (· ≠ dropIdx)) :=
    ⟨h.nodup.filter _, (selectionTokens_le_of_sublist filter_sublist).trans h.fits⟩
  unfold improveStep
  dsimp only
  split
  · exact greedyRefill_feasible candidates hfilter _
  · exact h

theorem localImproveSelection_feasible {chosen : List (Fin n)} (h : Feasible tokens tokenBudget chosen) :
    Feasible tokens tokenBudget (localImproveSelection candidates tokens tokenBudget chosen) := by
  have hfold : ∀ (drops best : List (Fin n)), Feasible tokens tokenBudget best →
      Feasible tokens tokenBudget (drops.foldl (improveStep candidates tokens tokenBudget) best) := by
    intro drops
    induction drops with
    | nil => exact fun _ hbest => hbest
    | cons i drops ih => exact fun best hbest => ih _ (improveStep_feasible candidates hbest i)
  exact hfold chosen chosen h

theorem improveStep_value (best : List (Fin n)) (dropIdx : Fin n) :
    selectionValue candidates best ≤ selectionValue candidates
      (improveStep candidates tokens tokenBudget best dropIdx) := by
  unfold improveStep
  dsimp only
  split
  next h => exact isBetterSelection_le candidates h
  next => exact le_rfl

theorem localImproveSelection_value (chosen : List (Fin n)) : selectionValue candidates chosen ≤
      selectionValue candidates (localImproveSelection candidates tokens tokenBudget chosen) := by
  have hfold : ∀ drops best : List (Fin n), selectionValue candidates best ≤
      selectionValue candidates (drops.foldl (improveStep candidates tokens tokenBudget) best) := by
    intro drops
    induction drops with
    | nil => exact fun _ => le_rfl
    | cons i drops ih => exact fun best => (improveStep_value candidates best i).trans (ih _)
  exact hfold chosen chosen

theorem repairExactBudget_feasible {selected : List (Fin n)} (h : selected.Nodup) :
    Feasible tokens tokenBudget (repairExactBudget candidates tokens tokenBudget selected) := by
  have hkept : Feasible tokens tokenBudget (dropOverBudget candidates tokens tokenBudget selected).1 :=
    dropOverBudget_feasible candidates h
  have hchosen := greedyRefill_feasible candidates hkept []
  unfold repairExactBudget
  dsimp only
  split
  · exact localImproveSelection_feasible candidates hchosen
  · exact hchosen

theorem dpBacktrack_lt (keep : List (List Bool)) (weights : Fin n → Nat) :
    ∀ (i : Nat) (h : i ≤ n) (capacity : Nat), ∀ j ∈ dpBacktrack keep weights i h capacity, j.val < i := by
  intro i
  induction i with
  | zero => exact fun _ _ j hj => absurd hj not_mem_nil
  | succ i ih =>
    intro h capacity j hj
    unfold dpBacktrack at hj
    split at hj
    · rcases mem_cons.1 hj with rfl | hj
      · exact Nat.lt_succ_self i
      · exact Nat.lt_succ_of_lt (ih _ _ j hj)
    · exact Nat.lt_succ_of_lt (ih _ _ j hj)

theorem dpBacktrack_decreasing (keep : List (List Bool)) (weights : Fin n → Nat) :
    ∀ (i : Nat) (h : i ≤ n) (capacity : Nat), (dpBacktrack keep weights i h capacity).Pairwise (· > ·) := by
  intro i
  induction i with
  | zero => exact fun _ _ => .nil
  | succ i ih =>
    intro h capacity
    unfold dpBacktrack
    split
    · exact .cons (dpBacktrack_lt keep weights i _ _) (ih _ _)
    · exact ih _ _

variable [Add α] [Zero α]

omit [Sums α] in
theorem dpSelect_increasing (weights : Fin n → Nat) (values : Fin n → α) (buckets : Nat) :
    (dpSelect weights values buckets).Pairwise (· < ·) :=
  pairwise_reverse.2 (dpBacktrack_decreasing _ _ _ _ _)

omit [Sums α] in
theorem dpSelect_nodup (weights : Fin n → Nat) (values : Fin n → α) (buckets : Nat) :
    (dpSelect weights values buckets).Nodup :=
  (dpSelect_increasing weights values buckets).imp ne_of_lt

theorem selectUnderBudget_feasible (p : ContextPacker) :
    Feasible tokens tokenBudget (p.selectUnderBudget candidates tokens tokenBudget).1 := by
  unfold ContextPacker.selectUnderBudget
  dsimp only
  split
  · exact greedySelect_feasible candidates _
  · exact repairExactBudget_feasible candidates (dpSelect_nodup _ _ _)

end

/-- What the packer hands on: memories of the list it was given, each once, and none without a budget. -/
structure PackedFrom (scored : List (ScoredMemory α)) (tokenBudget : Int) (memories : List (ScoredMemory α)) : Prop
    where
  nodup : (memories.map (·.memoryId)).Nodup
  subset : memories ⊆ scored
  empty : tokenBudget ≤ 0 → memories = []

variable [Add α] [Zero α] [Sums α]

namespace ContextPacker

variable (p : ContextPacker)

def packCost (costById : Option Dict) (item : ScoredMemory α) : Nat :=
  (costById.bind fun d => d.get item.memoryId).getD (p.tokens item)

/-- The selection among the sorted candidates, the path and the candidates looked at. -/
def selection (scored : List (ScoredMemory α)) (tokenBudget : Int) (costById : Option Dict) :
    List (Fin (scored.insertionSort RankLe).length) × PackPath × Option
      (List (Fin (scored.insertionSort RankLe).length)) :=
  p.selectUnderBudget (scored.insertionSort RankLe).get
    (fun i => p.packCost costById ((scored.insertionSort RankLe).get i)) tokenBudget.toNat

variable {p} {scored : List (ScoredMemory α)} {tokenBudget : Int} {costById : Option Dict}

theorem pack_eq_emptyPack (h : scored = [] ∨ tokenBudget ≤ 0) :
    p.pack scored tokenBudget costById = .ok (p.emptyPack .dp (scored.insertionSort RankLe)) := by
  rw [pack, if_pos]
  rcases h with rfl | h
  · rfl
  · rw [decide_eq_true h, Bool.or_true]

theorem pack_eq_finalize (hne : scored ≠ []) (hpos : 0 < tokenBudget) : p.pack scored tokenBudget costById =
      finalize (scored.insertionSort RankLe).get (fun i => p.packCost costById ((scored.insertionSort RankLe).get i))
        tokenBudget.toNat (p.selection scored tokenBudget costById).1 (p.selection scored tokenBudget costById).2.1
        (p.selection scored tokenBudget costById).2.2 fun i => p.tokens ((scored.insertionSort RankLe).get i) := by
  have hlen : (scored.insertionSort RankLe).isEmpty = false := by
    rw [isEmpty_eq_false_iff, ← length_pos_iff, length_insertionSort]
    exact length_pos_of_ne_nil hne
  rw [pack, hlen, Bool.false_or, if_neg (by simpa using hpos)]
  rfl

theorem selection_feasible : Feasible (fun i => p.packCost costById ((scored.insertionSort RankLe).get i))
    tokenBudget.toNat (p.selection scored tokenBudget costById).1 :=
  selectUnderBudget_feasible _ p

structure Finalized (p : ContextPacker) (scored : List (ScoredMemory α)) (tokenBudget : Int) (costById : Option Dict)
    (packed : PackedMemories α) : Prop where
  memories : packed.memories =
    ((p.selection scored tokenBudget costById).1.map (scored.insertionSort RankLe).get).insertionSort RankLe
  totalScore : packed.totalScore = total (packed.memories.map (·.compositeScore))
  skippedCount : packed.skippedCount = ((scored.insertionSort RankLe).length : Int) - packed.memories.length
  wasBudgetReached : packed.wasBudgetReached = decide (0 < packed.skippedCount)
  path : packed.path = (p.selection scored tokenBudget costById).2.1
  budgetExcludedIds : packed.budgetExcludedIds = budgetExcludedIdsOf (scored.insertionSort RankLe).get
    (p.selection scored tokenBudget costById).1 (p.selection scored tokenBudget costById).2.2
  tokenEstimates : packed.tokenEstimates = (scored.insertionSort RankLe).map fun c => (c.memoryId, p.tokens c)

theorem Finalized.perm {packed : PackedMemories α} (h : p.Finalized scored tokenBudget costById packed) :
    packed.memories.Perm ((p.selection scored tokenBudget costById).1.map (scored.insertionSort RankLe).get) := by
  rw [h.memories]
  exact perm_insertionSort _ _

theorem exists_finalized (hne : scored ≠ []) (hpos : 0 < tokenBudget) :
    ∃ packed, p.pack scored tokenBudget costById = .ok packed ∧ p.Finalized scored tokenBudget costById packed := by
  rw [pack_eq_finalize hne hpos, finalize, if_neg (Nat.not_lt.2 selection_feasible.fits)]
  refine ⟨_, rfl, rfl, rfl, rfl, rfl, rfl, rfl, ?_⟩
  conv_rhs => rw [← ofFn_get (scored.insertionSort RankLe), map_ofFn]
  rfl

variable (p scored tokenBudget costById) in
theorem exists_pack : ∃ packed, p.pack scored tokenBudget costById = .ok packed := by
  by_cases hempty : scored = [] ∨ tokenBudget ≤ 0
  · exact ⟨_, pack_eq_emptyPack hempty⟩
  · rw [not_or, Int.not_le] at hempty
    obtain ⟨packed, hpack, -⟩ := exists_finalized hempty.1 hempty.2
    exact ⟨packed, hpack⟩

theorem pack_cases {packed : PackedMemories α} (hpack : p.pack scored tokenBudget costById = .ok packed) :
    ((scored = [] ∨ tokenBudget ≤ 0) ∧ packed = p.emptyPack .dp (scored.insertionSort RankLe)) ∨
      0 < tokenBudget ∧ p.Finalized scored tokenBudget costById packed := by
  by_cases hempty : scored = [] ∨ tokenBudget ≤ 0
  · rw [pack_eq_emptyPack hempty] at hpack
    exact .inl ⟨hempty, (Except.ok.inj hpack).symm⟩
  · rw [not_or, Int.not_le] at hempty
    obtain ⟨packed', hpack', hfinal⟩ := exists_finalized hempty.1 hempty.2
    obtain rfl := Except.ok.inj (hpack.symm.trans hpack')
    exact .inr ⟨hempty.2, hfinal⟩

end ContextPacker

theorem pack_ok (p : ContextPacker) (scored : List (ScoredMemory α)) (tokenBudget : Int) (costById : Option Dict)
    (hids : (scored.map (·.memoryId)).Nodup) :
    ∃ packed, p.pack scored tokenBudget costById = .ok packed ∧ PackedFrom scored tokenBudget packed.memories := by
  obtain ⟨packed, hpack⟩ := p.exists_pack scored tokenBudget costById
  refine ⟨packed, hpack, ?_⟩
  rcases ContextPacker.pack_cases hpack with ⟨-, rfl⟩ | ⟨hpos, hfinal⟩
  · exact ⟨nodup_nil, nil_subset _, fun _ => rfl⟩
  · have hperm := perm_insertionSort RankLe scored
    refine ⟨?_, ?_, fun hle => absurd hle (Int.not_le.2 hpos)⟩
    · rw [(hfinal.perm.map _).nodup_iff, map_map]
      exact ContextPacker.selection_feasible.nodup.map (injective_memoryId_get ((hperm.map _).nodup_iff.2 hids))
    · intro m hm
      obtain ⟨i, -, rfl⟩ := mem_map.1 (hfinal.perm.mem_iff.1 hm)
      exact hperm.mem_iff.1 (get_mem _ _)

end

end IbexHarness.Context
