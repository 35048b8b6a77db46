import IbexHarness.Budget.PyLedger
import IbexHarness.Extraction.Batch
import IbexHarness.Lib.Json

/-! `services/worker/app/extraction/provider.py` and the OpenAI-compatible client behind its adapters. -/

namespace IbexHarness.Extraction

section

open Lib

/-- The exceptions that leave the functions of the worker, by the classes its `except` clauses tell apart. -/
inductive Raised where
  /-- `ExtractionTransportError`, which the task retries -/
  | transport (message : String)
  /-- `ExtractionProviderError`, which is not a transport error -/
  | provider (message : String)
  | lifecycleConflict
  | ledger (e : Budget.Py.LedgerError)
  | valueError (message : String)
  /-- a `SQLAlchemyError` or an `OSError` -/
  | database
  | other (typeName : String)
deriving DecidableEq

def Raised.isTransport : Raised → Bool
  | .transport _ => true
  | _ => false

structure ExtractionCall where
  rawJson : Text
  model : Text
  inputTokens : Int
  outputTokens : Int
  latencyMs : Int

/-- `ExtractionProvider`; what a call gives may change from one question to the next. -/
structure Provider where
  name : Text
  supportedModels : List Text
  extract : Nat → Text → Text → Except Raised ExtractionCall

/-! ## The completion body -/

/-- What Python's `json` makes of a text: a value, a `JSONDecodeError` or another exception. -/
inductive Loads where
  | value (v : Json)
  | decodeError
  | raises (e : Raised)

def field (fields : List (Text × Json)) (key : String) : Option Json :=
  (fields.find? fun f => f.1 = key.toList).map Prod.snd

def requireMapping (value : Option Json) (message : String) : Except Raised (List (Text × Json)) :=
  match value with
  | some (.obj fields) => .ok fields
  | _ => .error (.provider message)

def firstChoice (payload : List (Text × Json)) : Except Raised (List (Text × Json)) :=
  match field payload "choices" with
  | some (.arr (choice :: _)) => requireMapping (some choice) "extraction provider choice is not an object"
  | _ => .error (.provider "extraction provider response missing choices")

def contentText (message : List (Text × Json)) : Except Raised Text :=
  match field message "content" with
  | some (.str content) =>
    if Text.strip content = [] then .error (.provider "extraction provider content empty") else .ok content
  | _ => .error (.provider "extraction provider content empty")

def messageContent (body : Json) : Except Raised Text := do
  let payload ← requireMapping (some body) "extraction provider returned non-object JSON"
  let choice ← firstChoice payload
  let message ← requireMapping (field choice "message") "extraction provider message missing"
  contentText message

def fence : Text := List.replicate 3 '\x60'

def stripFence (raw : Text) : Text :=
  let lines := raw.splitOn '\n'
  let lines := if fence.isPrefixOf (lines.headD []) then lines.tail else lines
  let lines := if lines ≠ [] ∧ Text.strip (lines.getLastD []) = fence then lines.dropLast else lines
  Text.strip (['\n'].intercalate lines)

def normalizedContentJson (loads : Text → Loads) (content : Text) : Except Raised Text :=
  let raw := Text.strip content
  let raw := if fence.isPrefixOf raw then stripFence raw else raw
  match loads raw with
  | .value _ => .ok raw
  | .decodeError => .error (.provider "extraction provider content is not JSON")
  | .raises e => .error e

/-- The value of a number that Python reads as an `int`: one without a fraction and an exponent. -/
def intValue (lit : Text) : Option Int :=
  let digits := if lit.head? = some '-' then lit.tail else lit
  if digits ≠ [] ∧ digits.all Char.isDigit then
    some ((if lit.head? = some '-' then -1 else 1) * Nat.ofDigitChars 10 digits 0)
  else none

def nonnegIntToken (value : Option Json) (name : String) : Except Raised Int :=
  match value with
  | none | some .null => .ok 0
  | some (.num lit) =>
    match intValue lit with
    | none => .error (.provider s!"extraction provider {name} must be an integer")
    | some n => if n < 0 then .error (.provider s!"extraction provider {name} must be non-negative") else .ok n
  | some _ => .error (.provider s!"extraction provider {name} must be an integer")

def usageTokens (body : Json) : Except Raised (Int × Int) :=
  match body with
  | .obj fields =>
    match field fields "usage" with
    | some (.obj usage) => do
        let input ← nonnegIntToken (field usage "prompt_tokens") "prompt_tokens"
        let output ← nonnegIntToken (field usage "completion_tokens") "completion_tokens"
        return (input, output)
    | _ => .ok (0, 0)
  | _ => .ok (0, 0)

def responseModel (str : Json → Option Text) (body : Json) (fallbackModel : Text) : Text :=
  match body with
  | .obj fields => ((field fields "model").bind str).getD fallbackModel
  | _ => fallbackModel

/-! ## The client -/

structure CompatEndpoint where
  baseUrl : Text
  model : Text
  apiKey : Option Text

structure CompletionRequest where
  url : Text
  authorization : Option Text
  model : Text
  systemPrompt : Text
  userContent : Text

/-- What `client.post` does: `httpx` raises, or there is a response with its status and its body. -/
inductive Posted where
  | timeout
  | transportError
  | raises (e : Raised)
  | response (status : Nat) (body : Loads)

structure CompatClient where
  endpoint : CompatEndpoint
  post : Nat → CompletionRequest → Posted
  loads : Text → Loads
  str : Json → Option Text
  latencyMs : Nat → Int

def retryableStatus : List Nat := [408, 429, 500, 502, 503, 504]

def raiseForHttpStatus (status : Nat) : Except Raised Unit :=
  if status ∈ retryableStatus then .error (.transport s!"extraction provider HTTP {status}")
  else if 400 ≤ status then .error (.provider s!"extraction provider HTTP {status}")
  else .ok ()

def responseJson : Loads → Except Raised Json
  | .value v => .ok v
  | .decodeError => .error (.provider "extraction provider returned invalid JSON")
  | .raises e => .error e

namespace CompatClient
variable (c : CompatClient)

def completionRequest (systemPrompt userContent : Text) : CompletionRequest where
  url := c.endpoint.baseUrl.rdropWhile (· == '/') ++ "/chat/completions".toList
  authorization := (c.endpoint.apiKey.filter (· ≠ [])).map ("Bearer ".toList ++ ·)
  model := c.endpoint.model
  systemPrompt := systemPrompt
  userContent := userContent

def postCompletion (t : Nat) (systemPrompt userContent : Text) : Except Raised (Nat × Loads) :=
  match c.post t (c.completionRequest systemPrompt userContent) with
  | .timeout => .error (.transport "extraction provider timeout")
  | .transportError => .error (.transport "extraction provider transport error")
  | .raises e => .error e
  | .response status body => .ok (status, body)

def parseCompletionBody (t : Nat) (body : Json) : Except Raised ExtractionCall := do
  let content ← messageContent body
  let raw ← normalizedContentJson c.loads content
  let tokens ← usageTokens body
  return ⟨raw, responseModel c.str body c.endpoint.model, tokens.1, tokens.2, c.latencyMs t⟩

def postChatCompletion (t : Nat) (systemPrompt userContent : Text) : Except Raised ExtractionCall := do
  let (status, body) ← c.postCompletion t systemPrompt userContent
  raiseForHttpStatus status
  let body ← responseJson body
  c.parseCompletionBody t body

/-- The adapters, which differ in the name and in the settings they accept. -/
def provider (name : Text) : Provider := ⟨name, [c.endpoint.model], c.postChatCompletion⟩

end CompatClient

end

/-! `run_batch_extraction` with the budget ledger of the job. -/

open Lib Budget

/-! ## Dependencies -/

structure BudgetClaimRequest extends Py.BudgetClaimRequest where
  provider : Text
  model : Text

/-- The protocol of `app.budget_ledger`, of which every error is a `BudgetLedgerError`. -/
structure BudgetLedger where
  claim : Nat → BudgetClaimRequest → Except Py.LedgerError (Option Reservation)
  finalize : Nat → Reservation → Int → Int → Except Py.LedgerError Completeness
  release : Nat → Reservation → Except Py.LedgerError Unit

structure MemoryWriteRequest (μ : Type) where
  turnIndex : Nat
  memory : μ
  ordinal : Nat
  expectedSessionRevision : Nat

/-- `BatchJob`, and the two functions of other modules that its run calls. -/
structure BatchJob (μ : Type) where
  orgId : Uuid
  agentId : Uuid
  sessionId : Uuid
  turns : List Turn
  provider : Provider
  writeMemory : Nat → MemoryWriteRequest μ → Except Raised Unit
  loadSession : Nat → Except Raised (Option SessionRow)
  updateLastExtractedTurn : Nat → Nat → Nat → Except Raised Unit
  budgetLedger : Option BudgetLedger
  /-- `EXTRACTION_SYSTEM_PROMPT_BATCH` -/
  systemPrompt : Text
  /-- `str` of a session id -/
  uuidText : Uuid → Text
  /-- `fingerprint_extraction_call` of the provider, the model, the system prompt and the user content -/
  fingerprintExtractionCall : Text → Text → Text → Text → Text
  /-- `parse_batch_result`; none for a `ValidationError` -/
  parseBatchResult : Text → Option (List (TurnExtraction μ))

/-! ## State -/

inductive Event (μ : Type) where
  | claim (req : BudgetClaimRequest) (out : Except Py.LedgerError (Option Reservation))
  | extract (userContent : Text) (out : Except Raised ExtractionCall)
  | finalize (c : Reservation) (inputTokens outputTokens : Int) (out : Except Py.LedgerError Completeness)
  | release (c : Reservation) (out : Except Py.LedgerError Unit)
  | writeMemory (req : MemoryWriteRequest μ)
  | updatePointer (turnIndex revision : Nat)
  | logTrace (call : ExtractionCall) (isComplete : Bool) (errorCode : String)

namespace Event
variable {μ : Type}

def granted? : Event μ → Option Reservation
  | .claim _ (.ok c) => c
  | _ => none

def settled? : Event μ → Option Reservation
  | .finalize c _ _ (.ok _) | .release c (.ok _) => some c
  | _ => none

def raised? : Event μ → Option Raised
  | .extract _ (.error e) => some e
  | _ => none

end Event

structure AttemptState (μ : Type) where
  tick : Nat
  trace : List (Event μ)

abbrev BatchM (μ : Type) := ExceptT Raised (StateM (AttemptState μ))

section
variable {μ α : Type}

def ask (question : Nat → α) : BatchM μ α := do
  let s ← get
  set { s with tick := s.tick + 1 }
  return question s.tick

def emit (e : Event μ) : BatchM μ Unit := do
  let s ← get
  set { s with trace := s.trace ++ [e] }

def orRaise : Except Raised α → BatchM μ α
  | .ok a => return a
  | .error e => throw e

/-! ## The budget -/

def heuristicTokens (content : Text) : Nat :=
  if content = [] then 0 else max content.length (Text.byteLength content / 4)

def estimatePromptTokens (systemPrompt userContent : Text) : Int × Int :=
  ((heuristicTokens systemPrompt + 4 + heuristicTokens userContent + 4 : Nat), 4096)

def budgetReservationKey (sessionId : Text) (firstTurnIndex : Nat) : Text :=
  "extraction:".toList ++ sessionId ++ [':'] ++ (Nat.repr firstTurnIndex).toList

variable (job : BatchJob μ)

def BatchJob.claimRequest (pending : List Turn) (userContent : Text) : BudgetClaimRequest :=
  let model := job.provider.supportedModels.headD []
  let (inputTokens, outputTokens) := estimatePromptTokens job.systemPrompt userContent
  { principal := ⟨job.orgId, job.agentId⟩
    key := budgetReservationKey (job.uuidText job.sessionId) ((pending.head?.map Turn.turnIndex).getD 0)
    requestHash := job.fingerprintExtractionCall job.provider.name model job.systemPrompt userContent
    provider := job.provider.name, model, inputTokens, outputTokens }

/-- How `_admit_budget` passes on what the ledger raises: what may be retried is a transport error. -/
def admissionError : Py.LedgerError → Raised
  | .unavailable _ => .transport "budget admission unavailable"
  | .denied .inProgress _ => .transport "budget admission in progress"
  | e => .ledger e

def admitBudget (pending : List Turn) (userContent : Text) : BatchM μ (Option Reservation) := do
  match job.budgetLedger with
  | none => return none
  | some ledger =>
    let request := job.claimRequest pending userContent
    let out ← ask fun t => ledger.claim t request
    emit (.claim request out)
    orRaise (out.mapError admissionError)

def settleBudget (claim : Option Reservation) (call : ExtractionCall) : BatchM μ Unit := do
  match claim, job.budgetLedger with
  | some c, some ledger =>
    let out ← ask fun t => ledger.finalize t c call.inputTokens call.outputTokens
    emit (.finalize c call.inputTokens call.outputTokens out)
  | _, _ => return

def releaseBudget (claim : Option Reservation) : BatchM μ Unit := do
  match claim, job.budgetLedger with
  | some c, some ledger =>
    let out ← ask fun t => ledger.release t c
    emit (.release c out)
  | _, _ => return

/-! ## The attempt -/

/-- Why there is nothing to do, or the pending turns and the revision of the session. -/
def filterPending : BatchM μ (Result ⊕ List Turn × Nat) := do
  let loaded ← ask job.loadSession
  match ← orRaise loaded with
  | none => return .inl .sessionNotFound
  | some row =>
    if row.deleted || row.status ≠ .completed then return .inl .sessionNotReady
    let pending := selectUnprocessedTurns job.turns row.lastExtractedTurn
    if pending = [] then return .inl .noUnprocessedTurns
    return .inr (pending, row.lifecycleRevision)

def extract (userContent : Text) : BatchM μ ExtractionCall := do
  let out ← ask fun t => job.provider.extract t job.systemPrompt userContent
  emit (.extract userContent out)
  orRaise out

def writeTurnMemories (turnIndex revision : Nat) : Nat → List μ → BatchM μ Nat
  | _, [] => return 0
  | ordinal, memory :: rest => do
      let req : MemoryWriteRequest μ := ⟨turnIndex, memory, ordinal, revision⟩
      emit (.writeMemory req)
      let out ← ask fun t => job.writeMemory t req
      orRaise out
      return (← writeTurnMemories turnIndex revision (ordinal + 1) rest) + 1

def pointerError : Raised → Raised
  | .database => .transport "session pointer update failed"
  | e => e

def updatePointerAfterTurn (turnIndex revision : Nat) : BatchM μ Unit := do
  emit (.updatePointer turnIndex revision)
  let out ← ask fun t => job.updateLastExtractedTurn t turnIndex revision
  orRaise (out.mapError pointerError)

def writeMemoriesPerTurn (revision : Nat) : List (TurnExtraction μ) → BatchM μ Nat
  | [] => return 0
  | turn :: rest => do
      let written ← writeTurnMemories job turn.turnIndex revision 0 turn.memories
      updatePointerAfterTurn job turn.turnIndex revision
      return written + (← writeMemoriesPerTurn revision rest)

/-- `require_exact_turn_indexes`, with the message of the check that fails first. -/
def requireExactTurnIndexes (pending : List Turn) (batch : List (TurnExtraction μ)) : Except Raised Unit :=
  let expected := pending.map Turn.turnIndex
  let got := batch.map TurnExtraction.turnIndex
  if ¬ expected.Nodup then .error (.valueError "duplicate turn_index in pending turns")
  else if ¬ got.Nodup then .error (.valueError "duplicate turn_index in provider results")
  else if exactTurnIndexes pending batch then .ok ()
  else .error (.valueError "provider turn_index set must match pending turns exactly")

def persistParsed (pending : List Turn) (call : ExtractionCall) (revision : Nat) : BatchM μ Nat := do
  match job.parseBatchResult call.rawJson with
  | none => throw (.other "ValidationError")
  | some batch =>
    orRaise (requireExactTurnIndexes pending batch)
    writeMemoriesPerTurn job revision (inTurnOrder batch)

def Raised.typeName : Raised → String
  | .transport _ => "ExtractionTransportError"
  | .provider _ => "ExtractionProviderError"
  | .lifecycleConflict => "ExtractionLifecycleConflict"
  | .ledger (.ledger _) => "BudgetLedgerError"
  | .ledger (.unavailable _) => "BudgetLedgerUnavailableError"
  | .ledger .claimClosed => "BudgetLedgerClaimClosedError"
  | .ledger (.denied _ _) => "BudgetAdmissionDeniedError"
  | .valueError _ => "ValueError"
  | .database => "SQLAlchemyError"
  | .other name => name

/-- The `except` clause around the provider call: it catches one class of exceptions. -/
def releaseOnTransportError (claim : Option Reservation) (e : Raised) : BatchM μ α := do
  if e.isTransport then
    releaseBudget job claim
  throw e

def extractOrRelease (claim : Option Reservation) (userContent : Text) : BatchM μ ExtractionCall :=
  tryCatch (extract job userContent) (releaseOnTransportError job claim)

def persistOrLog (pending : List Turn) (call : ExtractionCall) (revision : Nat) : BatchM μ Nat :=
  tryCatch (persistParsed job pending call revision) fun e => do
    emit (.logTrace call false e.typeName)
    throw e

def runBatchExtraction : BatchM μ Result := do
  match ← filterPending job with
  | .inl skipped => return skipped
  | .inr (pending, revision) =>
    let userContent := formatBatchUserContent pending
    if maxBatchContentBytes < Text.byteLength userContent then
      throw (.valueError "turns content exceeds UTF-8 byte cap")
    let claim ← admitBudget job pending userContent
    let call ← extractOrRelease job claim userContent
    settleBudget job claim call
    let written ← persistOrLog job pending call revision
    emit (.logTrace call true "")
    return .ok written pending.length

/-- An attempt that starts at a tick: its outcome and its state at the end. -/
def BatchJob.attempt (tick : Nat) : Except Raised Result × AttemptState μ := (runBatchExtraction job).run.run ⟨tick, []⟩

/-- What each of a number of attempts did; whether the task is retried or delivered again makes no difference. -/
def BatchJob.attempts : Nat → Nat → List (List (Event μ))
  | 0, _ => []
  | n + 1, tick => (job.attempt tick).2.trace :: BatchJob.attempts n (job.attempt tick).2.tick

end

end IbexHarness.Extraction
