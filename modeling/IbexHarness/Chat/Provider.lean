import IbexHarness.Chat.Admission

/-! `services/proxy/internal/http/chat_fallback.go` with `FallbackEligible` of the provider package. -/

namespace IbexHarness.Chat

open Lib

section

/-! ## Eligibility -/

def hasUpstreamOverride (req : ProviderRequest) : Bool :=
  !(Text.trimSpace req.apiKeyOverride).isEmpty || !(Text.trimSpace req.baseURLOverride).isEmpty

inductive FallbackReason where
  | circuitOpen
  | status5xx
  | timeout

/-- The decision a provider error leads to; an error without a usable status is left to the caller. -/
def fallbackFromProviderError (pe : ProviderError) : Option (Option FallbackReason) :=
  if pe.reason = "circuit_open" then some (some .circuitOpen)
  else if 500 ≤ pe.statusCode then some (some .status5xx)
  else if 400 ≤ pe.statusCode then some none
  else none

def fallbackFromTimeout (err : Err) : Option FallbackReason :=
  if err.upstreamTimeout || err.deadlineExceeded then some .timeout else none

def fallbackEligible (err : Err) (req : ProviderRequest) : Option FallbackReason :=
  if hasUpstreamOverride req then none
  else (err.provider.bind fallbackFromProviderError).getD (fallbackFromTimeout err)

def truncateChain (chain : List Text) (maxDepth : Int) : List Text := chain.take (max maxDepth 1).toNat

/-! ## Hops -/

structure FallbackSuccess where
  prov : Text
  resp : Response
  model : Text
  reason : FallbackReason
  r : Context

inductive HopResult where
  | hopContinue
  | hopAbort
  | hopOK (hop : FallbackSuccess)

/-- The arguments every hop of one walk shares; the request context is replaced from hop to hop. -/
structure WalkFallbackArgs where
  parsed : ChatCompletionRequest
  primaryReq : ProviderRequest
  orgId : Uuid
  reason : FallbackReason

def skipFallbackForOrgErr : RouteError → Bool
  | .modelNotAllowedForOrg | .noProviderForModel => true
  | .other => false

def fallbackHopRequest (primary : ProviderRequest) (hopModel : Text) : ProviderRequest :=
  { primary with model := hopModel, apiKeyOverride := [], baseURLOverride := [] }

def fallbackOriginalModel (reqModel : Text) (parsed : ChatCompletionRequest) : Text :=
  if (Text.trimSpace reqModel).isEmpty then Text.trimSpace parsed.model else Text.trimSpace reqModel

section
variable (h : ChatCompletionHandler) (env : Env)

def complete (prov : Text) (req : ProviderRequest) : HandlerM (Except Err Response) := do
  emit (.complete prov req)
  ask fun t => env.complete t prov req

def classifyFallbackHopErr (err : Err) (hopReq : ProviderRequest) : HandlerM HopResult := do
  if (← ask env.ctxErr).isSome || err.canceled then return .hopAbort
  if (fallbackEligible err hopReq).isNone then return .hopAbort
  return .hopContinue

def runFallbackHop (args : WalkFallbackArgs) (r : Context) (hopProv hopModel : Text) : HandlerM HopResult := do
  let hopReq := fallbackHopRequest args.primaryReq hopModel
  match ← complete env hopProv hopReq with
  | .error err =>
    releaseBudget r "fallback_hop_failed"
    classifyFallbackHopErr env err hopReq
  | .ok resp => return .hopOK ⟨hopProv, resp, hopModel, args.reason, r⟩

def tryFallbackHop (args : WalkFallbackArgs) (forOrg : Nat → Uuid → Text → Except RouteError Text) (r : Context)
    (hopModel : Text) : HandlerM (HopResult × Context) := do
  match ← ask fun t => forOrg t args.orgId hopModel with
  | .error e => return (if skipFallbackForOrgErr e then .hopContinue else .hopAbort, r)
  | .ok hopProv =>
    let hopReq := fallbackHopRequest args.primaryReq hopModel
    let (r', ok) ← rebudgetForFallback h r
      ⟨hopProv, hopReq.model, hopReq.messages, maxTokensFromParsed args.parsed⟩
    -- fail closed: no hop is called that the cap cannot cover
    if !ok then return (.hopAbort, r)
    return (← runFallbackHop env args r' hopProv hopModel, r')

def walkFallbackChain (args : WalkFallbackArgs) (forOrg : Nat → Uuid → Text → Except RouteError Text) :
    Context → List Text → HandlerM (Option FallbackSuccess)
  | _, [] => return none
  | r, hopModel :: chain => do
      if (← ask env.ctxErr).isSome then return none
      match ← tryFallbackHop h env args forOrg r hopModel with
      | (.hopOK hop, _) => return some hop
      | (.hopAbort, _) => return none
      | (.hopContinue, r') => walkFallbackChain args forOrg r' chain

def orgUUIDFromAuth (ctx : Context) : Option Uuid := ctx.authOrgId.filter (· ≠ 0)

def tryFallbackComplete (r : Context) (parsed : ChatCompletionRequest) (primaryReq : ProviderRequest)
    (reason : FallbackReason) : HandlerM (Option FallbackSuccess) := do
  match h.policyFallback, h.modelRouter, orgUUIDFromAuth r with
  | some fallbackChain, some forOrg, some orgId =>
    match ← ask fun t => fallbackChain t orgId (fallbackOriginalModel primaryReq.model parsed) with
    | none => return none
    | some chain =>
      walkFallbackChain h env ⟨parsed, primaryReq, orgId, reason⟩ forOrg r (truncateChain chain h.maxFallbackDepth)
  | _, _, _ => return none

end

end

/-! `services/proxy/internal/http/chat_provider.go` with `stream_forward.go` and `MapError` of the provider
package. -/

/-! ## Provider errors for the client -/

def unavailableWithDetail (detail : String) : ApiError :=
  ⟨.providerUnavailable, 503, "Upstream LLM provider is unavailable", detail⟩

def unavailable : ApiError := unavailableWithDetail "Upstream LLM provider is unavailable"

def mapReason : String → Option ApiError
  | "circuit_open" => some (unavailableWithDetail "LLM provider circuit breaker is open")
  | "queue_full" => some (unavailableWithDetail "Self-hosted LLM backend queue is full")
  | _ => none

def mapHTTPStatus (status : Int) (safeMsg : String) : ApiError :=
  if status = 400 then
    ⟨.invalidRequest, 400, "Invalid request to LLM provider",
      if safeMsg = "" then "Invalid request to LLM provider" else safeMsg⟩
  else if status = 429 then
    ⟨.rateLimited, 429, "Upstream LLM provider rate limited", "Upstream LLM provider rate limited"⟩
  else unavailable

def mapError (sanitize : Text → String) (err : Err) : Option ApiError :=
  if err.canceled then none
  else match err.provider with
    | some pe => some ((mapReason pe.reason).getD (mapHTTPStatus pe.statusCode (sanitize pe.providerErrMsg)))
    | none =>
      if err.deadlineExceeded || err.upstreamTimeout then
        some ⟨.providerTimeout, 504, "Upstream LLM provider timed out", "Upstream LLM provider timed out"⟩
      else some unavailable

def providerErr502 (providerName : Text) (msg : Text) : Err :=
  ⟨false, false, false, some ⟨providerName, 502, msg, ""⟩⟩

def PipelineError.message : PipelineError → String
  | .invalidJSON => "invalid provider response JSON"
  | .stageFailed => "response pipeline stage failed"
  | .serialize => "failed to serialize processed response"

/-! ## The handler -/

structure FallbackAudit where
  originalModel : Text
  fallbackModel : Text
  reason : Option FallbackReason

def FallbackAudit.none : FallbackAudit := ⟨[], [], Option.none⟩

def checkpointModel (parsed : ChatCompletionRequest) (audit : FallbackAudit) : Text :=
  if audit.fallbackModel.isEmpty then parsed.model else audit.fallbackModel

def toProviderRequest (parsed : ChatCompletionRequest) : ProviderRequest :=
  { model := parsed.model, messages := parsed.messages, stream := parsed.stream
    maxTokens := parsed.maxTokens.getD 0, apiKeyOverride := [], baseURLOverride := [], tlsServerName := [] }

section
variable (h : ChatCompletionHandler) (env : Env)

def abandonIdempotency (claim : Option IdempotencyClaim) : HandlerM Unit := emit (.abandonIdempotency claim)

def finishIdempotency (claim : Option IdempotencyClaim) (status : Int) : HandlerM Unit :=
  emit (.finishIdempotency claim status)

def writeProviderFailure (r : Context) (err : Err) (claim : Option IdempotencyClaim) : HandlerM Unit := do
  releaseBudget r "provider_failure"
  match mapError h.sanitizeProviderDetail err with
  | none => return
  | some mapped =>
    emit (.writeError mapped)
    finishIdempotency claim mapped.httpStatus

def writeJSONSuccess (r : Context) (parsed : ChatCompletionRequest) (providerName : Text) (resp : Response)
    (claim : Option IdempotencyClaim) (audit : FallbackAudit) (out : Text) : HandlerM Unit := do
  emit (.writeJSON resp.statusCode out audit.fallbackModel)
  finishIdempotency claim resp.statusCode
  settleBudgetOutcome h r
    ⟨resp.statusCode, providerName, checkpointModel parsed audit, resp.usage.or (h.usageFromJSON out)⟩

def writeProviderSuccess (r : Context) (parsed : ChatCompletionRequest) (providerName : Text) (resp : Response)
    (claim : Option IdempotencyClaim) (audit : FallbackAudit) : HandlerM Unit := do
  match ← ask env.readAllBody with
  | .error .tooLarge =>
    writeProviderFailure h r (providerErr502 providerName "provider response exceeds size limit".toList) claim
  | .error (.failed err) => writeProviderFailure h r err claim
  | .ok body =>
    match ← ask fun t => env.processResponseBody t body with
    | .error e => writeProviderFailure h r (providerErr502 providerName e.message.toList) claim
    | .ok out => writeJSONSuccess h r parsed providerName resp claim audit out

def streamCheckpointHook (parsed : ChatCompletionRequest) (providerName : Text) (audit : FallbackAudit)
    (ctx : Context) (res : StreamCheckpointResult) : HandlerM Unit :=
  settleBudgetOutcome h ctx ⟨200, providerName, checkpointModel parsed audit, res.usage⟩

/-- The hook runs however the copy ended, but not without a flusher. -/
def forwardSSEStream (r : Context) (audit : FallbackAudit)
    (onComplete : Context → StreamCheckpointResult → HandlerM Unit) : HandlerM Unit := do
  if !env.flusher then
    emit (.writeError ⟨.internalError, 500, "Streaming not supported by server", ""⟩)
    return
  emit (.writeStream audit.fallbackModel)
  let res ← ask env.streamCopy
  onComplete r res

def finishProviderResponse (r : Context) (parsed : ChatCompletionRequest) (claim : Option IdempotencyClaim)
    (prov : Text) (resp : Response) (audit : FallbackAudit) : HandlerM Unit := do
  if parsed.stream then
    forwardSSEStream env r audit (streamCheckpointHook h parsed prov audit)
  else
    writeProviderSuccess h env r parsed prov resp claim audit

def exitPrimaryCompleteError (r : Context) (claim : Option IdempotencyClaim) (err : Err) : HandlerM Bool := do
  if err.canceled || (← ask env.ctxErr) == some .canceled then
    releaseBudget r "canceled"
    return true
  if (← ask env.ctxErr).isSome then
    writeProviderFailure h r err claim
    return true
  return false

/-- A failed walk along the chain is reported with the request as it was
before the walk. -/
def handlePrimaryCompleteError (r : Context) (parsed : ChatCompletionRequest) (claim : Option IdempotencyClaim)
    (provReq : ProviderRequest) (err : Err) : HandlerM Unit := do
  if ← exitPrimaryCompleteError h env r claim err then return
  match fallbackEligible err provReq with
  | none => writeProviderFailure h r err claim
  | some reason =>
    match ← tryFallbackComplete h env r parsed provReq reason with
    | none =>
      if (← ask env.ctxErr) == some .canceled then
        releaseBudget r "canceled"
      else
        writeProviderFailure h r err claim
    | some fb =>
      finishProviderResponse h env fb.r parsed claim fb.prov fb.resp
        ⟨fallbackOriginalModel provReq.model parsed, fb.model, some fb.reason⟩

def completeAndRespond (r : Context) (parsed : ChatCompletionRequest) (prov : Text) (claim : Option IdempotencyClaim)
    (provReq : ProviderRequest) : HandlerM Unit := do
  match ← complete env prov provReq with
  | .error err => handlePrimaryCompleteError h env r parsed claim provReq err
  | .ok resp => finishProviderResponse h env r parsed claim prov resp .none

def writeCredentialResolveFailure : HandlerM Unit :=
  emit (.writeError ⟨.authUnavailable, 503, "Auth service unavailable", "provider key resolve failed"⟩)

def credentialResolveInputs (r : Context) : Except ApiError (Uuid × Text) :=
  match r.authOrgId, env.bearer with
  | none, _ => .error ⟨.authUnavailable, 503, "Auth service unavailable", "missing org context for key resolve"⟩
  | some _, none => .error ⟨.invalidToken, 401, "Invalid Authorization header", ""⟩
  | some org, some token => .ok (org, token)

/-- The request with the organization's own key and pinned base URL, unless the URL is refused. -/
def Credential.apply (c : Credential) (provReq : ProviderRequest) : Option ProviderRequest :=
  if c.platformDefault then some provReq
  else if (Text.trimSpace c.baseURL).isEmpty then some { provReq with apiKeyOverride := c.apiKey }
  else c.pinned.map fun (pinnedURL, serverName) =>
    { provReq with apiKeyOverride := c.apiKey, baseURLOverride := pinnedURL, tlsServerName := serverName }

def applyCredentialOverride (r : Context) (prov : Text) (provReq : ProviderRequest) :
    HandlerM (Option ProviderRequest) := do
  match h.credentialResolver with
  | none => return some provReq
  | some resolve =>
    if h.globs.toLower prov == ['m', 'o', 'c', 'k'] then return some provReq
    match credentialResolveInputs env r with
    | .error e =>
      emit (.writeError e)
      return none
    | .ok (org, token) =>
      match (← ask fun t => resolve t org prov token).bind (·.apply provReq) with
      | some provReq' => return some provReq'
      | none =>
        writeCredentialResolveFailure
        return none

def dispatchProviderCompletion (r : Context) (parsed : ChatCompletionRequest) (prov : Text)
    (claim : Option IdempotencyClaim) : HandlerM Unit := do
  if (← ask env.ctxErr) == some .canceled then
    abandonIdempotency claim
    return
  let messages ← ask fun t => env.applyInjection t parsed.model parsed.messages
  match ← applyCredentialOverride h env r prov { toProviderRequest parsed with messages } with
  | none => abandonIdempotency claim
  | some provReq =>
    match ← claimBudgetAdmission h r ⟨prov, provReq.model, provReq.messages, maxTokensFromParsed parsed⟩ with
    | (_, false) => abandonIdempotency claim
    | (r', true) => completeAndRespond h env r' parsed prov claim provReq

def forwardChatCompletion (r : Context) (parsed : ChatCompletionRequest) (prov : Text) : HandlerM Unit := do
  match ← ask env.resolveIdempotency with
  | none => return
  | some claim =>
    if claim.any (·.replay) then
      emit .replayIdempotency
    else
      dispatchProviderCompletion h env r parsed prov claim

end

end IbexHarness.Chat
