import Mathlib.Data.Finset.Card
import IbexHarness.Context.Packer

/-! `ContextAssembler._pack_and_format` of `services/context/app/assemble.py`. -/

namespace IbexHarness.Context

open Lib

variable {α : Type} [LinearOrder α] [Add α] [Zero α] [Sums α]

def bucketSize : Nat := 16

/-! ## Costs -/

section
variable (kind : EstimateKind) (nonce : Text)

def memoryWrapDelta (item : ScoredMemory α) (rawTokens : Nat) : Nat :=
  estimateWrappedMemoryTokens kind nonce item - rawTokens

def wrapAwareCosts (scored : List (ScoredMemory α)) : Dict :=
  scored.map fun item =>
    let raw := kind.estimateTokens item.content
    (item.memoryId, raw + memoryWrapDelta kind nonce item raw)

def memorySeparatorTokens (count : Nat) : Nat := (count - 1) * kind.estimateTokens newline

structure WrapCostContext where
  kind : EstimateKind
  nonce : Text
  estimates : Dict
  costById : Option Dict

end

namespace WrapCostContext

variable (ctx : WrapCostContext)

def rawTokenEstimate (item : ScoredMemory α) : Nat :=
  (ctx.estimates.get item.memoryId).getD (ctx.kind.estimateTokens item.content)

def itemWrapTokens (item : ScoredMemory α) (raw : Nat) : Nat :=
  match ctx.costById.bind (·.get item.memoryId) with
  | some cost => cost - raw
  | none => memoryWrapDelta ctx.kind ctx.nonce item raw

def selectionRawAndWrap (remaining : List (ScoredMemory α)) : Nat × Nat :=
  ((remaining.map ctx.rawTokenEstimate).sum,
    (remaining.map fun item => ctx.itemWrapTokens item (ctx.rawTokenEstimate item)).sum +
      memorySeparatorTokens ctx.kind remaining.length)

def selectionFitsBudget (usableBudget : Int) (remaining : List (ScoredMemory α)) : Bool :=
  ((ctx.selectionRawAndWrap remaining).1 + (ctx.selectionRawAndWrap remaining).2 : Nat) ≤ usableBudget

def dropUntilWrapFits (remaining : List (ScoredMemory α)) (usableBudget : Int) :
    List (ScoredMemory α) × List (ScoredMemory α) :=
  Greedy.dropUntil scoreLt (ctx.selectionFitsBudget usableBudget) remaining.length remaining

def greedyWrapRefill (chosen scored : List (ScoredMemory α)) (usableBudget : Int) : List (ScoredMemory α) :=
  Greedy.refill (ctx.selectionFitsBudget usableBudget) (fun out item => item.memoryId ∈ out.map (·.memoryId)) chosen
    (scored.insertionSort RankLe)

end WrapCostContext

/-! ## Trimming -/

def idsOf (memories : List (ScoredMemory α)) : Finset Text := (memories.map (·.memoryId)).toFinset

def droppedAfterRefill (remaining refilled : List (ScoredMemory α)) (priorExcluded alreadyDropped : Finset Text) :
    Finset Text :=
  (alreadyDropped \ idsOf refilled) ∪ (idsOf remaining \ idsOf refilled) ∪ (priorExcluded \ idsOf refilled)

def wrappedTotalTokens (ctx : WrapCostContext) (costById : Dict) (remaining : List (ScoredMemory α)) : Nat :=
  (remaining.map fun item => (costById.get item.memoryId).getD (ctx.rawTokenEstimate item)).sum

def rebuildAfterWrapTrim (ctx : WrapCostContext) (costById : Dict) (packed : PackedMemories α)
    (remaining : List (ScoredMemory α)) (droppedIds : Finset Text) : PackedMemories α where
  memories := remaining
  totalTokens := wrappedTotalTokens ctx costById remaining
  totalScore := total (remaining.map (·.compositeScore))
  skippedCount := packed.skippedCount + (idsOf packed.memories \ idsOf remaining).card -
    (idsOf remaining \ idsOf packed.memories).card
  wasBudgetReached := droppedIds ≠ ∅
  path := packed.path
  candidatesEvaluated := packed.candidatesEvaluated
  budgetExcludedIds := droppedIds
  tokenEstimates := ctx.estimates

def trimPackedForWrap (kind : EstimateKind) (nonce : Text) (costById : Dict) (scored : List (ScoredMemory α))
    (usableBudget : Int) (packed : PackedMemories α) : PackedMemories α :=
  if usableBudget ≤ 0 then packed
  else
    let ctx : WrapCostContext := ⟨kind, nonce, packed.tokenEstimates, some costById⟩
    let (remaining, dropped) := ctx.dropUntilWrapFits packed.memories usableBudget
    let refilled := ctx.greedyWrapRefill remaining scored usableBudget
    let droppedIds := droppedAfterRefill remaining refilled packed.budgetExcludedIds (idsOf dropped)
    if droppedIds = ∅ ∧ refilled.length = packed.memories.length then packed
    else rebuildAfterWrapTrim ctx costById packed refilled droppedIds

/-! ## Assembly -/

def makePacker (settings : ContextSettings) (kind : EstimateKind) : ContextPacker where
  kind := kind
  bucketSize := bucketSize
  dpCellCeiling := settings.packerDpCellCeiling
  maxConsecutiveSkips := settings.packerMaxConsecutiveSkips
  bucketSize_pos := by decide
  dpCellCeiling_pos := settings.ceiling_pos

def packScored (settings : ContextSettings) (kind : EstimateKind) (scored : List (ScoredMemory α))
    (usableBudget : Int) : Except AssembleError (PackedMemories α) := do
  let nonce := representativeNonce settings.formatterNonceBytes
  let costById := wrapAwareCosts kind nonce scored
  let packed ← (makePacker settings kind).pack scored usableBudget (some costById)
  return trimPackedForWrap kind nonce costById scored usableBudget packed

def applyAvailableTokens (budget : TokenBudget) (availableTokens : Int) : TokenBudget :=
  if availableTokens ≤ 0 ∨ budget.usableBudget ≤ availableTokens then budget
  else { budget with
    usableBudget := availableTokens, isConstrained := availableTokens < minViableMemoryBudget }

inductive Exclusion where
  | included
  | budget
  | filter

structure MemoryUsedRecord (α : Type) where
  memoryId : Text
  compositeScore : α
  category : Text
  exclusion : Exclusion
  tokenEstimate : Nat

def memoriesUsed (kind : EstimateKind) (scored : List (ScoredMemory α)) (packed : PackedMemories α) :
    List (MemoryUsedRecord α) :=
  scored.map fun item =>
    { memoryId := item.memoryId, compositeScore := item.compositeScore, category := item.category
      exclusion :=
        if item.memoryId ∈ idsOf packed.memories then .included
        else if item.memoryId ∈ packed.budgetExcludedIds then .budget
        else .filter
      tokenEstimate := (packed.tokenEstimates.get item.memoryId).getD (kind.estimateTokens item.content) }

structure AssembleRequest where
  model : Text
  recentMessages : List Message
  directive : Option Text
  availableTokens : Int
  toolSchemas : List Text

structure AssemblyResult (α : Type) where
  formatted : FormattedContext
  packed : PackedMemories α
  budget : TokenBudget
  memoriesUsed : List (MemoryUsedRecord α)
  tokensUsed : Nat

def AssembleRequest.budgetRequest (request : AssembleRequest) (settings : ContextSettings) : BudgetRequest where
  model := request.model
  messages := request.recentMessages
  directive := request.directive.getD []
  toolSchemas := request.toolSchemas
  nonceBytes := settings.formatterNonceBytes

/-- `_pack_and_format` for scored candidates and the nonce the formatter draws. -/
def packAndFormat (mulTrunc : Int → Rat → Int) (catalog : CapabilityCatalog) (settings : ContextSettings)
    (request : AssembleRequest) (scored : List (ScoredMemory α)) (nonce : Text) :
    Except AssembleError (AssemblyResult α) := do
  let calculated ← calculate mulTrunc catalog (request.budgetRequest settings)
  let budget := applyAvailableTokens calculated request.availableTokens
  let packed ← packScored settings budget.estimateKind scored budget.usableBudget
  let formatted ← format request.directive request.recentMessages packed.memories request.toolSchemas nonce
  return {
    formatted, packed, budget, memoriesUsed := memoriesUsed budget.estimateKind scored packed
    tokensUsed := budget.directiveTokens + budget.messagesTokens + packed.totalTokens }

end IbexHarness.Context
