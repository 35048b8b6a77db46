import IbexHarness.Context.Formatter
import IbexHarness.Lib.Greedy
import Mathlib.Data.Finset.Image
import Mathlib.Data.List.FinRange

/-! `services/context/app/budget.py`: what is left of a model's context window for memories. -/

namespace IbexHarness.Context

open Lib

section

def minViableMemoryBudget : Int := 256

def responseReserveFloor : Int := 500
def responseReserveCap : Int := 4096
def responseReserveFraction : Rat := 15 / 100

def maxSectionJoins : Nat := 3

structure TokenBudget where
  contextWindow : Int
  responseReserve : Int
  safetyBuffer : Int
  usableBudget : Int
  directiveTokens : Nat
  messagesTokens : Nat
  isConstrained : Bool
  estimateKind : EstimateKind
  toolSchemasTokens : Nat
  formatterOverheadTokens : Nat

/-- A placeholder with the length of `secrets.token_urlsafe(nonce_bytes)`. -/
def representativeNonce (nonceBytes : Nat) : Text :=
  let n := max 1 (min nonceBytes maxNonceBytes)
  List.replicate ((4 * n + 2) / 3) 'A'

def concatMessages (messages : List Message) : Text :=
  newline.intercalate (messages.map fun msg => messageLine msg.role msg.content)

def responseReserve (mulTrunc : Int → Rat → Int) (contextWindow maxOutputTokens : Int) : Int :=
  max responseReserveFloor
    (min (min (mulTrunc contextWindow responseReserveFraction) maxOutputTokens) responseReserveCap)

def formatToolsText (toolSchemas : List Text) : Text := newline.intercalate (toolLines toolSchemas)

def memoryOpenTagForEstimate (nonce : Text) : Text :=
  "<ibex_memory nonce=\"".toList ++ nonce ++ "\">".toList

def directiveSafetyOverheadText (hasDirective : Bool) (nonce : Text) : Text :=
  if hasDirective then newline ++ safetyPrefix ++ memoryOpenTagForEstimate nonce ++ safetySuffix else []

def formatterFixedOverheadText (hasDirective hasMessages hasTools : Bool) (nonce : Text) : Text :=
  let sectionCount := ([hasDirective, hasMessages, true, hasTools].filter id).length
  let joins := min maxSectionJoins (sectionCount - 1)
  directiveSafetyOverheadText hasDirective nonce ++ (List.replicate joins (newline ++ newline)).flatten

def requireSameEstimateKind (kind other : EstimateKind) (label : String) : Except AssembleError Unit :=
  if other = kind then .ok () else .error (.estimateKindMismatch label)

structure BudgetRequest where
  model : Text
  messages : List Message
  directive : Text
  toolSchemas : List Text
  nonceBytes : Nat

def BudgetRequest.overheadText (r : BudgetRequest) : Text :=
  formatterFixedOverheadText (!(Text.strip r.directive).isEmpty) (!r.messages.isEmpty)
    (!(formatToolsText r.toolSchemas).isEmpty) (representativeNonce r.nonceBytes)

section
variable (mulTrunc : Int → Rat → Int)

/-- The budget of a request once the model and its estimator are known. -/
def budgetOf (cap : ModelCapability) (policy : TokenizerFamilyPolicy) (kind : EstimateKind) (r : BudgetRequest) :
    TokenBudget :=
  let directiveTokens := kind.estimateTokens r.directive
  let messagesTokens := kind.estimateTokens (concatMessages r.messages)
  let toolSchemasTokens := kind.estimateTokens (formatToolsText r.toolSchemas)
  let formatterOverheadTokens := kind.estimateTokens r.overheadText
  let reserve := responseReserve mulTrunc cap.contextWindow cap.maxOutputTokens
  let safetyBuffer := mulTrunc cap.contextWindow policy.safetyBufferFraction
  let usable := max (cap.contextWindow - reserve - safetyBuffer - directiveTokens - messagesTokens -
    toolSchemasTokens - formatterOverheadTokens) 0
  { contextWindow := cap.contextWindow, responseReserve := reserve, safetyBuffer, usableBudget := usable
    directiveTokens, messagesTokens, isConstrained := usable < minViableMemoryBudget, estimateKind := kind
    toolSchemasTokens, formatterOverheadTokens }

def calculate (catalog : CapabilityCatalog) (r : BudgetRequest) : Except AssembleError TokenBudget := do
  let cap ← catalog.forModel r.model
  let policy ← catalog.familyPolicy cap.tokenizerFamily
  let kind ← policy.kind
  let kind2 ← policy.kind
  requireSameEstimateKind kind kind2 "directive and messages"
  let kind3 ← policy.kind
  requireSameEstimateKind kind kind3 "tool_schemas"
  let kind4 ← policy.kind
  requireSameEstimateKind kind kind4 "formatter overhead"
  return budgetOf mulTrunc cap policy kind r

end

def estimateWrappedMemoryTokens {α : Type} (kind : EstimateKind) (nonce : Text) (item : ScoredMemory α) : Nat :=
  kind.estimateTokens (serializeMemoryElement nonce item.memoryId item.category item.content)

end

/-! `services/context/app/packer.py`. -/

/-- Python's `sum`, which on floats is no left fold of `+`. -/
class Sums (α : Type) where
  total : List α → α

instance (priority := low) {α : Type} [AddCommMonoid α] : Sums α := ⟨List.sum⟩

export Sums (total)

variable {α : Type} [LinearOrder α] [Add α] [Zero α] [Sums α]

/-! ## Order and dictionaries -/

def RankLe (a b : ScoredMemory α) : Prop :=
  b.compositeScore < a.compositeScore ∨ a.compositeScore = b.compositeScore ∧ a.memoryId ≤ b.memoryId

instance : DecidableRel (RankLe : ScoredMemory α → ScoredMemory α → Prop) :=
  fun _ _ => inferInstanceAs (Decidable (_ ∨ _))

/-- The strict order of the key `(composite_score, memory_id)` the least of which is dropped. -/
def scoreLt (a b : ScoredMemory α) : Bool :=
  a.compositeScore < b.compositeScore || (a.compositeScore = b.compositeScore && a.memoryId < b.memoryId)

/-- A dictionary as the list of its assignments; the last one counts. -/
abbrev Dict := List (Text × Nat)

def Dict.get (d : Dict) (key : Text) : Option Nat := d.reverse.lookup key

inductive PackPath where
  | dp
  | greedy
deriving DecidableEq

structure PackedMemories (α : Type) where
  memories : List (ScoredMemory α)
  totalTokens : Nat
  totalScore : α
  skippedCount : Int
  wasBudgetReached : Bool
  path : PackPath
  candidatesEvaluated : Nat
  budgetExcludedIds : Finset Text
  tokenEstimates : Dict

/-! ## The knapsack table -/

def bucketWeight (tokenCount bucketSize : Nat) : Nat :=
  if tokenCount = 0 then 0 else max 1 (tokenCount / bucketSize)

def dpRow (prev : List α) (weight : Nat) (value : α) (buckets : Nat) : List α × List Bool :=
  if weight = 0 then
    (prev.map fun p => if p < p + value then p + value else p, prev.map fun p => decide (p < p + value))
  else if buckets < weight then
    (prev, List.replicate (buckets + 1) false)
  else
    let take := (prev.take (buckets + 1 - weight)).map (· + value)
    let skip := prev.drop weight
    (prev.take weight ++ List.zipWith (fun t s => if s < t then t else s) take skip,
      List.replicate weight false ++ List.zipWith (fun t s => decide (s < t)) take skip)

def dpKeep (buckets : Nat) : List α → List (Nat × α) → List (List Bool)
  | _, [] => []
  | prev, (weight, value) :: items =>
    let (curr, keepRow) := dpRow prev weight value buckets
    keepRow :: dpKeep buckets curr items

section
variable {n : Nat}

/-- `_dp_backtrack` from item `i` down, the selected items in the order they are found. -/
def dpBacktrack (keep : List (List Bool)) (weights : Fin n → Nat) : (i : Nat) → i ≤ n → Nat → List (Fin n)
  | 0, _, _ => []
  | i + 1, h, capacity =>
    if (keep.getD i []).getD capacity false then
      ⟨i, h⟩ :: dpBacktrack keep weights i (Nat.le_of_lt h) (capacity - weights ⟨i, h⟩)
    else dpBacktrack keep weights i (Nat.le_of_lt h) capacity

def dpSelect (weights : Fin n → Nat) (values : Fin n → α) (buckets : Nat) : List (Fin n) :=
  let keep := dpKeep buckets (List.replicate (buckets + 1) 0) (List.ofFn fun i => (weights i, values i))
  (dpBacktrack keep weights n (Nat.le_refl n) buckets).reverse

end

/-! ## Selections -/

section
variable {n : Nat} (candidates : Fin n → ScoredMemory α) (tokens : Fin n → Nat) (tokenBudget : Nat)

def selectionTokens (selected : List (Fin n)) : Nat := (selected.map tokens).sum

def selectionValue (selected : List (Fin n)) : α := total (selected.map fun i => (candidates i).compositeScore)

/-- The numbers of the candidates by `(-composite_score, memory_id)`. -/
def rankOrder : List (Fin n) := (List.finRange n).insertionSort fun i j => RankLe (candidates i) (candidates j)

/-- The loop of `_greedy_select`: what is selected and what was looked at. -/
def greedyLoop (maxSkips : Nat) : List (Fin n) → Nat → Nat → List (Fin n) × List (Fin n)
  | [], _, _ => ([], [])
  | idx :: order, used, skips =>
    if used + tokens idx ≤ tokenBudget then
      let (selected, examined) := greedyLoop maxSkips order (used + tokens idx) 0
      (idx :: selected, idx :: examined)
    else if maxSkips < skips + 1 then ([], [idx])
    else
      let (selected, examined) := greedyLoop maxSkips order used (skips + 1)
      (selected, idx :: examined)

def greedySelect (maxSkips : Nat) : List (Fin n) × List (Fin n) :=
  greedyLoop tokens tokenBudget maxSkips (rankOrder candidates) 0 0

def dropOverBudget (selected : List (Fin n)) : List (Fin n) × Bool :=
  let (kept, dropped) := Greedy.dropUntil (fun i j => scoreLt (candidates i) (candidates j))
    (fun s => selectionTokens tokens s ≤ tokenBudget) selected.length selected
  (kept, !dropped.isEmpty)

def refillLoop (exclude : List (Fin n)) : List (Fin n) → List (Fin n) → Nat → List (Fin n)
  | [], out, _ => out
  | idx :: order, out, used =>
    if idx ∈ out ∨ idx ∈ exclude then refillLoop exclude order out used
    else if used + tokens idx ≤ tokenBudget then refillLoop exclude order (out ++ [idx]) (used + tokens idx)
    else refillLoop exclude order out used

def greedyRefill (chosen exclude : List (Fin n)) : List (Fin n) :=
  refillLoop tokens tokenBudget exclude (rankOrder candidates) chosen (selectionTokens tokens chosen)

def shouldLocalImprove (chosen : List (Fin n)) : Bool :=
  match (chosen.map tokens).max? with
  | none => false
  | some maxChosen =>
    let room : Int := (tokenBudget : Int) - selectionTokens tokens chosen + maxChosen
    !(room ≤ 0) && (List.finRange n).any fun i => i ∉ chosen && 0 < tokens i && tokens i ≤ room

def selectionTieKey (selected : List (Fin n)) : List Text :=
  (selected.map fun i => (candidates i).memoryId).insertionSort (· ≤ ·)

def isBetterSelection (trial best : List (Fin n)) (trialValue bestValue : α) : Bool :=
  if bestValue < trialValue then true
  else if trialValue < bestValue then false
  else selectionTieKey candidates trial < selectionTieKey candidates best

/-- One round of `_local_improve_selection`: leave out an item and refill without it. -/
def improveStep (best : List (Fin n)) (dropIdx : Fin n) : List (Fin n) :=
  let trial := greedyRefill candidates tokens tokenBudget (best.filter (· ≠ dropIdx)) [dropIdx]
  if isBetterSelection candidates trial best (selectionValue candidates trial) (selectionValue candidates best) then
    trial
  else best

def localImproveSelection (chosen : List (Fin n)) : List (Fin n) :=
  chosen.foldl (improveStep candidates tokens tokenBudget) chosen

def repairExactBudget (selected : List (Fin n)) : List (Fin n) :=
  let (kept, dropped) := dropOverBudget candidates tokens tokenBudget selected
  let chosen := greedyRefill candidates tokens tokenBudget kept []
  if dropped || shouldLocalImprove tokens tokenBudget chosen then
    localImproveSelection candidates tokens tokenBudget chosen
  else chosen

def budgetExcludedIdsOf (selected : List (Fin n)) (examined : Option (List (Fin n))) : Finset Text :=
  (((examined.getD (List.finRange n)).filter (· ∉ selected)).map fun i => (candidates i).memoryId).toFinset

def finalize (selected : List (Fin n)) (path : PackPath) (examined : Option (List (Fin n))) (rawTokens : Fin n → Nat) :
    Except AssembleError (PackedMemories α) :=
  let packed := (selected.map candidates).insertionSort RankLe
  let totalTokens := selectionTokens tokens selected
  let skipped : Int := (n : Int) - packed.length
  if tokenBudget < totalTokens then .error (.packerBug totalTokens tokenBudget)
  else .ok {
    memories := packed, totalTokens, totalScore := total (packed.map (·.compositeScore)), skippedCount := skipped
    wasBudgetReached := 0 < skipped, path, candidatesEvaluated := n
    budgetExcludedIds := budgetExcludedIdsOf candidates selected examined
    tokenEstimates := List.ofFn fun i => ((candidates i).memoryId, rawTokens i) }

end

/-! ## The packer -/

structure ContextPacker where
  kind : EstimateKind
  bucketSize : Nat
  dpCellCeiling : Nat
  maxConsecutiveSkips : Nat
  bucketSize_pos : 1 ≤ bucketSize
  dpCellCeiling_pos : 1 ≤ dpCellCeiling

namespace ContextPacker

variable (p : ContextPacker)

def tokens (item : ScoredMemory α) : Nat := p.kind.estimateTokens item.content

def selectUnderBudget {n : Nat} (candidates : Fin n → ScoredMemory α) (tokens : Fin n → Nat) (tokenBudget : Nat) :
    List (Fin n) × PackPath × Option (List (Fin n)) :=
  let buckets := max 1 (tokenBudget / p.bucketSize)
  if p.dpCellCeiling < n * (buckets + 1) then
    let (selected, examined) := greedySelect candidates tokens tokenBudget p.maxConsecutiveSkips
    (selected, .greedy, some examined)
  else
    let selected := dpSelect (fun i => bucketWeight (tokens i) p.bucketSize) (fun i => (candidates i).compositeScore)
      buckets
    (repairExactBudget candidates tokens tokenBudget selected, .dp, none)

def emptyPack (path : PackPath) (candidates : List (ScoredMemory α)) : PackedMemories α where
  memories := []
  totalTokens := 0
  totalScore := 0
  skippedCount := candidates.length
  wasBudgetReached := !candidates.isEmpty
  path := path
  candidatesEvaluated := candidates.length
  budgetExcludedIds := (candidates.map (·.memoryId)).toFinset
  tokenEstimates := candidates.map fun c => (c.memoryId, p.tokens c)

def pack (scored : List (ScoredMemory α)) (tokenBudget : Int) (costById : Option Dict) :
    Except AssembleError (PackedMemories α) :=
  let candidates := scored.insertionSort RankLe
  if candidates.isEmpty || tokenBudget ≤ 0 then .ok (p.emptyPack .dp candidates)
  else
    let rawTokens := fun i : Fin candidates.length => p.tokens (candidates.get i)
    let packTokens := fun i : Fin candidates.length =>
      (costById.bind fun d => d.get (candidates.get i).memoryId).getD (rawTokens i)
    let (selected, path, examined) := p.selectUnderBudget candidates.get packTokens tokenBudget.toNat
    finalize candidates.get packTokens tokenBudget.toNat selected path examined rawTokens

end ContextPacker

end IbexHarness.Context
