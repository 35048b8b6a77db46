import IbexHarness.Billing.Estimate
import Mathlib.Data.Rat.Floor

/-! `packages/billing/estimate.go` and `services/worker/app/budget_pricing.py` charge the same cents for the same
tokens. -/

namespace IbexHarness.Billing

open Lib

/-! ## Machine integers -/

def IsInt64 (x : Int) : Prop := -2 ^ 63 ≤ x ∧ x ≤ maxInt64

instance (x : Int) : Decidable (IsInt64 x) := inferInstanceAs (Decidable (_ ∧ _))

namespace Checked

abbrev CheckM := ExceptT EstimateError Option

def op (x : Int) : CheckM Int := ExceptT.lift (if IsInt64 x then some x else none)

def ceilMulDiv1k (tokens centsPer1k : Int) : CheckM Int :=
  if tokens = 0 ∨ centsPer1k = 0 then pure 0
  else do
    let limit ← op (maxInt64.tdiv centsPer1k)
    if limit < tokens then throw .overflow
    else
      let prod ← op (tokens * centsPer1k)
      let most ← op (maxInt64 - 999)
      if most < prod then throw .overflow
      else
        let sum ← op (prod + 999)
        op (sum.tdiv 1000)

def addCostChecked (inCents outCents : Int) : CheckM Int := do
  let limit ← op (maxInt64 - outCents)
  if limit < inCents then throw .overflow
  else op (inCents + outCents)

def estimateCost (g : Globs) (card : CardVersion) (usage : TokenUsage) : CheckM (Int × Text) :=
  if (Text.trimSpace card.version).isEmpty then throw .versionRequired
  else
    match matchPrice g card.prices usage.provider usage.model with
    | none => throw (.noRate usage.provider usage.model)
    | some row => do
        ofExcept (rejectNegativeOperands usage row)
        let inCents ← ceilMulDiv1k usage.inputTokens row.inputCentsPer1k
        let outCents ← ceilMulDiv1k usage.outputTokens row.outputCentsPer1k
        let total ← addCostChecked inCents outCents
        return (total, card.version)

end Checked

/-! ## Components -/

def componentCents (tokens centsPer1k : Int) : Int := ⌈(tokens * centsPer1k : ℚ) / 1000⌉

variable {tokens centsPer1k : Int}

theorem componentCents_eq (tokens centsPer1k : Int) :
    componentCents tokens centsPer1k = (tokens * centsPer1k + 999) / 1000 := by
  have hceil := Rat.ceil_intCast_div_natCast (tokens * centsPer1k) 1000
  push_cast at hceil
  rw [componentCents, hceil]
  omega

theorem Py.ceilMulDiv1k_eq (tokens centsPer1k : Int) :
    Py.ceilMulDiv1k tokens centsPer1k = componentCents tokens centsPer1k := by
  rw [componentCents_eq, ceilMulDiv1k]
  split
  case isTrue h =>
    have hprod : tokens * centsPer1k = 0 := Int.mul_eq_zero.mpr h
    rw [hprod]
    rfl
  case isFalse => rfl

/-- The guard by division is the comparison of the product. -/
theorem tdiv_lt_iff (hc : 0 < centsPer1k) : maxInt64.tdiv centsPer1k < tokens ↔ maxInt64 < tokens * centsPer1k := by
  rw [Int.tdiv_eq_ediv_of_nonneg (by decide)]
  exact Int.ediv_lt_iff_lt_mul hc

theorem ceilMulDiv1k_eq (ht : 0 ≤ tokens) (hc : 0 ≤ centsPer1k) : ceilMulDiv1k tokens centsPer1k =
      if maxInt64 - 999 < tokens * centsPer1k then .error .overflow
      else .ok (componentCents tokens centsPer1k) := by
  have hmax : (0 : Int) ≤ maxInt64 - 999 := by decide
  rw [componentCents_eq]
  by_cases hzero : tokens = 0 ∨ centsPer1k = 0
  · have hprod : tokens * centsPer1k = 0 := Int.mul_eq_zero.mpr hzero
    rw [ceilMulDiv1k, if_pos hzero, hprod, if_neg (Int.not_lt.mpr hmax)]
    rfl
  · have hpos : 0 < centsPer1k := by omega
    have hnonneg : 0 ≤ tokens * centsPer1k := Int.mul_nonneg ht hc
    have hround : (tokens * centsPer1k + 999).tdiv 1000 = (tokens * centsPer1k + 999) / 1000 :=
      Int.tdiv_eq_ediv_of_nonneg (by omega)
    rw [ceilMulDiv1k, if_neg hzero, hround]
    by_cases hlimit : maxInt64 < tokens * centsPer1k
    · rw [if_pos ((tdiv_lt_iff hpos).mpr hlimit), if_pos (by omega)]
    · rw [if_neg (mt (tdiv_lt_iff hpos).mp hlimit)]

def NegativeOperand (usage : TokenUsage) (row : PriceRow) : Prop :=
  usage.inputTokens < 0 ∨ usage.outputTokens < 0 ∨ row.inputCentsPer1k < 0 ∨ row.outputCentsPer1k < 0

instance (usage : TokenUsage) (row : PriceRow) : Decidable (NegativeOperand usage row) :=
  inferInstanceAs (Decidable (_ ∨ _))

theorem rejectNegativeOperands_eq (usage : TokenUsage) (row : PriceRow) :
    rejectNegativeOperands usage row = if NegativeOperand usage row then .error .negativeOperand else .ok () := by
  by_cases h : NegativeOperand usage row
  · rw [if_pos h, rejectNegativeOperands, if_pos (by simpa [NegativeOperand, or_assoc] using h)]
  · rw [if_neg h, rejectNegativeOperands, if_neg (by simpa [NegativeOperand, or_assoc] using h)]

theorem componentCents_nonneg (ht : 0 ≤ tokens) (hc : 0 ≤ centsPer1k) : 0 ≤ componentCents tokens centsPer1k := by
  have hnonneg : 0 ≤ tokens * centsPer1k := Int.mul_nonneg ht hc
  rw [componentCents_eq]
  omega

theorem componentCents_le (h : tokens * centsPer1k ≤ maxInt64 - 999) :
    componentCents tokens centsPer1k ≤ maxInt64 / 1000 := by
  rw [componentCents_eq]
  exact Int.ediv_le_ediv (by decide) (by omega)

theorem ceilMulDiv1k_eq_ok {cents : Int} (ht : 0 ≤ tokens) (hc : 0 ≤ centsPer1k)
    (h : ceilMulDiv1k tokens centsPer1k = .ok cents) :
    tokens * centsPer1k ≤ maxInt64 - 999 ∧ cents = componentCents tokens centsPer1k := by
  rw [ceilMulDiv1k_eq ht hc] at h
  split at h
  case isTrue => cases h
  case isFalse hle =>
    cases h
    exact ⟨Int.not_lt.mp hle, rfl⟩

theorem nonneg_of_accepted {usage : TokenUsage} {row : PriceRow} {u : Unit}
    (h : rejectNegativeOperands usage row = .ok u) :
    0 ≤ usage.inputTokens ∧ 0 ≤ usage.outputTokens ∧ 0 ≤ row.inputCentsPer1k ∧ 0 ≤ row.outputCentsPer1k := by
  rw [rejectNegativeOperands_eq] at h
  split at h
  case isTrue => cases h
  case isFalse hneg => simpa [NegativeOperand] using hneg

/-! ## No overflow -/

namespace Checked

variable {α β : Type}

theorem run_bind {x : CheckM α} {e : Except EstimateError α} {f : α → CheckM β} {k : α → Except EstimateError β}
    (hx : x.run = some e) (hf : ∀ a, e = .ok a → (f a).run = some (k a)) : (x >>= f).run = some (e >>= k) := by
  obtain rfl : x = ExceptT.mk (some e) := hx
  cases e with
  | error e => rfl
  | ok a => exact hf a rfl

theorem op_eq {x : Int} (h : IsInt64 x) : op x = pure x := by
  rw [op, if_pos h]
  rfl

theorem ceilMulDiv1k_run (ht : 0 ≤ tokens) (hc : 0 ≤ centsPer1k) :
    (ceilMulDiv1k tokens centsPer1k).run = some (Billing.ceilMulDiv1k tokens centsPer1k) := by
  unfold ceilMulDiv1k Billing.ceilMulDiv1k
  by_cases hzero : tokens = 0 ∨ centsPer1k = 0
  · rw [if_pos hzero, if_pos hzero]
    rfl
  · have hpos : 0 < centsPer1k := by omega
    have hnonneg : 0 ≤ tokens * centsPer1k := Int.mul_nonneg ht hc
    have hlimit : IsInt64 (maxInt64.tdiv centsPer1k) := by
      rw [Int.tdiv_eq_ediv_of_nonneg (by decide)]
      have hle : maxInt64 / centsPer1k ≤ maxInt64 := Int.ediv_le_self _ (by decide)
      have h₀ : 0 ≤ maxInt64 / centsPer1k := Int.ediv_nonneg (by decide) hc
      exact ⟨by omega, hle⟩
    rw [if_neg hzero, if_neg hzero, op_eq hlimit, pure_bind]
    by_cases hguard : maxInt64.tdiv centsPer1k < tokens
    · rw [if_pos hguard, if_pos hguard]
      rfl
    · have hprod : tokens * centsPer1k ≤ maxInt64 := Int.not_lt.mp (mt (tdiv_lt_iff hpos).mpr hguard)
      rw [if_neg hguard, if_neg hguard, op_eq ⟨by omega, hprod⟩, pure_bind, op_eq (by decide), pure_bind]
      by_cases hmost : maxInt64 - 999 < tokens * centsPer1k
      · rw [if_pos hmost, if_pos hmost]
        rfl
      · rw [if_neg hmost, if_neg hmost, op_eq ⟨by omega, by omega⟩, pure_bind,
          Int.tdiv_eq_ediv_of_nonneg (by omega), op_eq ⟨by omega, by omega⟩]
        rfl

theorem addCostChecked_run {inCents outCents : Int} (hin : 0 ≤ inCents) (hout : 0 ≤ outCents)
    (hmax : outCents ≤ maxInt64) :
    (addCostChecked inCents outCents).run = some (Billing.addCostChecked inCents outCents) := by
  have h₀ : (0 : Int) ≤ maxInt64 := by decide
  unfold addCostChecked Billing.addCostChecked
  rw [op_eq ⟨by omega, by omega⟩, pure_bind]
  by_cases hguard : maxInt64 - outCents < inCents
  · rw [if_pos hguard, if_pos hguard]
    rfl
  · rw [if_neg hguard, if_neg hguard, op_eq ⟨by omega, by omega⟩]
    rfl

/-- The checked run takes the same way and meets no overflow. -/
theorem estimateCost_run (g : Globs) (card : CardVersion) (usage : TokenUsage) :
    (estimateCost g card usage).run = some (Billing.estimateCost g card usage) := by
  by_cases hversion : (Text.trimSpace card.version).isEmpty = true
  · simp only [estimateCost, Billing.estimateCost, hversion]
    rfl
  · simp only [estimateCost, Billing.estimateCost, hversion]
    cases hrow : matchPrice g card.prices usage.provider usage.model with
    | none => rfl
    | some row =>
      refine run_bind (e := rejectNegativeOperands usage row) ?_ fun _ hoperands => ?_
      · cases rejectNegativeOperands usage row <;> rfl
      · obtain ⟨hit, hot, hic, hoc⟩ := nonneg_of_accepted hoperands
        refine run_bind (ceilMulDiv1k_run hit hic) fun inCents hin => ?_
        refine run_bind (ceilMulDiv1k_run hot hoc) fun outCents hout => ?_
        obtain ⟨-, rfl⟩ := ceilMulDiv1k_eq_ok hit hic hin
        obtain ⟨hprod, rfl⟩ := ceilMulDiv1k_eq_ok hot hoc hout
        refine run_bind (addCostChecked_run (componentCents_nonneg hit hic) (componentCents_nonneg hot hoc) ?_)
          fun total htotal => rfl
        exact (componentCents_le hprod).trans (by decide)

end Checked

/-! ## The two prices -/

section Matched

variable {g : Globs} {card : CardVersion} {usage : TokenUsage} {row : PriceRow}

/-- The product of one of the components leaves no room for rounding. -/
def ProductTooLarge (usage : TokenUsage) (row : PriceRow) : Prop :=
  maxInt64 - 999 < usage.inputTokens * row.inputCentsPer1k ∨ maxInt64 - 999 < usage.outputTokens * row.outputCentsPer1k

instance (usage : TokenUsage) (row : PriceRow) : Decidable (ProductTooLarge usage row) :=
  inferInstanceAs (Decidable (_ ∨ _))

def exactCents (usage : TokenUsage) (row : PriceRow) : Int :=
  componentCents usage.inputTokens row.inputCentsPer1k + componentCents usage.outputTokens row.outputCentsPer1k

theorem exactCents_le (h : ¬ ProductTooLarge usage row) : exactCents usage row ≤ maxInt64 := by
  simp only [ProductTooLarge, not_or, Int.not_lt] at h
  have hin := componentCents_le h.1
  have hout := componentCents_le h.2
  have hmax : maxInt64 / 1000 + maxInt64 / 1000 ≤ maxInt64 := by decide
  exact (Int.add_le_add hin hout).trans hmax

/-- What becomes of a usage whose row is found: the sum of the components never overflows by itself. -/
theorem estimateCost_matched (hversion : (Text.trimSpace card.version).isEmpty = false)
    (hrow : matchPrice g card.prices usage.provider usage.model = some row) :
    estimateCost g card usage =
      if NegativeOperand usage row then .error .negativeOperand
      else if ProductTooLarge usage row then .error .overflow
      else .ok (exactCents usage row, card.version) := by
  have hstart : estimateCost g card usage = (do
      rejectNegativeOperands usage row
      let inCents ← ceilMulDiv1k usage.inputTokens row.inputCentsPer1k
      let outCents ← ceilMulDiv1k usage.outputTokens row.outputCentsPer1k
      let total ← addCostChecked inCents outCents
      return (total, card.version)) := by
    simp only [estimateCost, hversion, hrow]
    rfl
  rw [hstart, rejectNegativeOperands_eq]
  by_cases hneg : NegativeOperand usage row
  · rw [if_pos hneg, if_pos hneg]
    rfl
  · have hnonneg := hneg
    simp only [NegativeOperand, not_or, Int.not_lt] at hnonneg
    obtain ⟨hit, hot, hic, hoc⟩ := hnonneg
    rw [if_neg hneg, if_neg hneg, ceilMulDiv1k_eq hit hic, ceilMulDiv1k_eq hot hoc]
    by_cases hlarge : ProductTooLarge usage row
    · rw [if_pos hlarge]
      by_cases hin : maxInt64 - 999 < usage.inputTokens * row.inputCentsPer1k
      · rw [if_pos hin]
        rfl
      · rw [if_neg hin, if_pos (hlarge.resolve_left hin)]
        rfl
    · have hsum := exactCents_le hlarge
      rw [exactCents] at hsum
      have hparts := hlarge
      rw [ProductTooLarge, not_or] at hparts
      rw [if_neg hlarge, if_neg hparts.1, if_neg hparts.2]
      simp only [bind, Except.bind, addCostChecked]
      rw [if_neg (by omega)]
      rfl

theorem Py.costFromRates_eq (usage : TokenUsage) (row : PriceRow) :
    Py.costFromRates row.inputCentsPer1k row.outputCentsPer1k usage.inputTokens usage.outputTokens =
      if NegativeOperand usage row then none else some (exactCents usage row) := by
  unfold Py.costFromRates
  rw [Py.ceilMulDiv1k_eq, Py.ceilMulDiv1k_eq]
  by_cases hneg : NegativeOperand usage row
  · rw [if_pos hneg]
    rcases hneg with h | h | h | h <;> simp [h]
  · rw [if_neg hneg]
    simp only [NegativeOperand, not_or] at hneg
    rw [if_neg (by simp [hneg]), if_neg (by simp [hneg]), exactCents]

/-- For a usage whose row is found, a cost in Go is the cost in Python, which is the sum of the two components rounded
up; Go fails exactly on a negative operand, a product above `MaxInt64 - 999` or a sum above `MaxInt64`, Python exactly
on a negative operand; and no operation of Go overflows. -/
theorem go_python_price_agree (hversion : (Text.trimSpace card.version).isEmpty = false)
    (hrow : matchPrice g card.prices usage.provider usage.model = some row) :
    (∀ cents version, estimateCost g card usage = .ok (cents, version) →
      Py.costFromRates row.inputCentsPer1k row.outputCentsPer1k usage.inputTokens usage.outputTokens = some cents ∧
        cents = ⌈(usage.inputTokens * row.inputCentsPer1k : ℚ) / 1000⌉ +
          ⌈(usage.outputTokens * row.outputCentsPer1k : ℚ) / 1000⌉) ∧
    ((∃ e, estimateCost g card usage = .error e) ↔
      NegativeOperand usage row ∨ ProductTooLarge usage row ∨ maxInt64 < exactCents usage row) ∧
    (Py.costFromRates row.inputCentsPer1k row.outputCentsPer1k usage.inputTokens usage.outputTokens = none ↔
      NegativeOperand usage row) ∧
    (Checked.estimateCost g card usage).run = some (estimateCost g card usage) := by
  rw [Py.costFromRates_eq, Checked.estimateCost_run, estimateCost_matched hversion hrow]
  by_cases hneg : NegativeOperand usage row
  · simp [hneg]
  · by_cases hlarge : ProductTooLarge usage row
    · simp [hneg, hlarge]
    · have hsum := exactCents_le hlarge
      simp only [hneg, hlarge, if_false, false_or]
      refine ⟨?_, ?_, by simp, trivial⟩
      · rintro cents version h
        cases h
        exact ⟨rfl, rfl⟩
      · exact iff_of_false (by simp) (Int.not_lt.mpr hsum)

end Matched

section Example

def sampleCard : CardVersion := ⟨['1'], [⟨['p'], ['*'], 3, 15⟩]⟩

def sampleGlobs : Globs := ⟨(fun t => t), fun _ _ => some true⟩

theorem go_python_price_agree_sample : estimateCost sampleGlobs sampleCard ⟨['p'], ['m'], 1001, 2⟩ = .ok (5, ['1']) ∧
      Py.costFromRates 3 15 1001 2 = some 5 := by
  have hcost : estimateCost sampleGlobs sampleCard ⟨['p'], ['m'], 1001, 2⟩ = .ok (5, ['1']) := by decide
  have hrow : matchPrice sampleGlobs sampleCard.prices ['p'] ['m'] = some ⟨['p'], ['*'], 3, 15⟩ := by decide
  exact ⟨hcost, ((go_python_price_agree (by decide) hrow).1 _ _ hcost).1⟩

end Example

end IbexHarness.Billing
