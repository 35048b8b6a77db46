import IbexHarness.Lib.Text
import Mathlib.Algebra.Ring.Int.Defs

/-! `packages/billing/estimate.go`: the cost of a token usage, with the overflow checks of `int64`. -/

namespace IbexHarness.Billing

open Lib

structure PriceRow where
  provider : Text
  modelPattern : Text
  inputCentsPer1k : Int
  outputCentsPer1k : Int
deriving DecidableEq

structure CardVersion where
  version : Text
  prices : List PriceRow

structure TokenUsage where
  provider : Text
  model : Text
  inputTokens : Int
  outputTokens : Int

inductive EstimateError where
  | versionRequired
  | noRate (provider model : Text)
  | negativeOperand
  | overflow
deriving DecidableEq

/-- The library functions price matching calls: `strings.ToLower` and `path.Match`, which has no
answer for a malformed pattern. -/
structure Globs where
  toLower : Text → Text
  pathMatch : Text → Text → Option Bool

def maxInt64 : Int := 2 ^ 63 - 1

def PriceRow.matchesUsage (g : Globs) (provider model : Text) (p : PriceRow) : Bool :=
  let pat := Text.trimSpace p.modelPattern
  g.toLower (Text.trimSpace p.provider) == g.toLower (Text.trimSpace provider) && !pat.isEmpty &&
    g.pathMatch pat (Text.trimSpace model) == some true

def matchPrice (g : Globs) (prices : List PriceRow) (provider model : Text) : Option PriceRow :=
  prices.find? (PriceRow.matchesUsage g provider model)

def rejectNegativeOperands (usage : TokenUsage) (row : PriceRow) : Except EstimateError Unit :=
  if usage.inputTokens < 0 || usage.outputTokens < 0 || row.inputCentsPer1k < 0 || row.outputCentsPer1k < 0 then
    .error .negativeOperand
  else .ok ()

def ceilMulDiv1k (tokens centsPer1k : Int) : Except EstimateError Int :=
  if tokens = 0 ∨ centsPer1k = 0 then .ok 0
  else if maxInt64.tdiv centsPer1k < tokens then .error .overflow
  else if maxInt64 - 999 < tokens * centsPer1k then .error .overflow
  else .ok ((tokens * centsPer1k + 999).tdiv 1000)

def addCostChecked (inCents outCents : Int) : Except EstimateError Int :=
  if maxInt64 - outCents < inCents then .error .overflow else .ok (inCents + outCents)

def estimateCost (g : Globs) (card : CardVersion) (usage : TokenUsage) : Except EstimateError (Int × Text) := do
  if (Text.trimSpace card.version).isEmpty then throw .versionRequired
  match matchPrice g card.prices usage.provider usage.model with
  | none => throw (.noRate usage.provider usage.model)
  | some row =>
    rejectNegativeOperands usage row
    let inCents ← ceilMulDiv1k usage.inputTokens row.inputCentsPer1k
    let outCents ← ceilMulDiv1k usage.outputTokens row.outputCentsPer1k
    let total ← addCostChecked inCents outCents
    return (total, card.version)

/-! ## Python -/

namespace Py

def ceilMulDiv1k (tokens centsPer1k : Int) : Int :=
  if tokens = 0 ∨ centsPer1k = 0 then 0 else (tokens * centsPer1k + 999) / 1000

def costFromRates (inputCentsPer1k outputCentsPer1k inputTokens outputTokens : Int) : Option Int :=
  if inputTokens < 0 ∨ outputTokens < 0 then none
  else if inputCentsPer1k < 0 ∨ outputCentsPer1k < 0 then none
  else some (ceilMulDiv1k inputTokens inputCentsPer1k + ceilMulDiv1k outputTokens outputCentsPer1k)

end Py

end IbexHarness.Billing
