import IbexHarness.Chat.Lemmas.Claims
import IbexHarness.Lib.Machine
import IbexHarness.Terminate.Handler

/-! Whether a handler that was granted a claim has finalized or released it when it returns. -/

namespace IbexHarness

open Lib Idempotency

/-! ## Chat -/

namespace Chat

/-- The request has got `Owned` from the ledger or `Miss` from the store. -/
def ClaimGranted (id : Idempotency) (q : KeyedRequest) (parsed : ChatCompletionRequest) (record : KeyRecord Text) :
  Prop := ∃ claim record', id.resolve q parsed record = (.goOn (some claim), record') ∧ claim.replay = false

def Resolution.inProgress : Resolution → Bool
  | .refused refusal => refusal.code == .idempotencyInProgress
  | .goOn _ => false

variable {id : Idempotency} {q : KeyedRequest} {parsed : ChatCompletionRequest} {record record' : KeyRecord Text}
  {claim : Claim}

theorem applyOutcome_granted {ledger : Bool} {detail : String} {fp : Text}
    (hres : (applyOutcome ledger detail fp (record.claim fp).1, (record.claim fp).2) = (.goOn (some claim), record'))
    (hreplay : claim.replay = false) : claim = ⟨fp, none, ledger⟩ ∧ record' = .pending fp := by
  cases record with
  | free =>
    cases hres
    exact ⟨rfl, rfl⟩
  | pending fp' =>
    by_cases hfp : fp' = fp <;> simp [KeyRecord.claim, hfp, applyOutcome] at hres
  | completed fp' status body =>
    by_cases hfp : fp' = fp
    · simp only [KeyRecord.claim, hfp, ne_eq, not_true, if_false, applyOutcome, Prod.mk.injEq, Resolution.goOn.injEq,
        Option.some.injEq] at hres
      rw [← hres.1] at hreplay
      cases hreplay
    · simp [KeyRecord.claim, hfp, applyOutcome] at hres

theorem applyOutcome_inProgress {ledger : Bool} {detail : String} {fp : Text} :
    (applyOutcome ledger detail fp (record.claim fp).1).inProgress = true ↔ record = .pending fp := by
  cases record with
  | free => simp [KeyRecord.claim, applyOutcome, Resolution.inProgress]
  | pending fp' =>
    by_cases hfp : fp' = fp
    · simp [KeyRecord.claim, hfp, applyOutcome, Resolution.inProgress, keyInProgress]
    · simp [KeyRecord.claim, hfp, applyOutcome, Resolution.inProgress, keyReuse]
  | completed fp' status body =>
    by_cases hfp : fp' = fp
    · simp [KeyRecord.claim, hfp, applyOutcome, Resolution.inProgress]
    · simp [KeyRecord.claim, hfp, applyOutcome, Resolution.inProgress, keyReuse]

/-- A claim is granted for a body that is not streamed, by one of the two backends. -/
theorem resolve_granted (hres : id.resolve q parsed record = (.goOn (some claim), record'))
    (hreplay : claim.replay = false) :
    parsed.stream = false ∧ ∃ fp detail, claim = ⟨fp, none, id.ledger⟩ ∧ record' = .pending fp ∧
      id.serves claim = true ∧
        ∀ record, (id.resolve q parsed record).1 = applyOutcome id.ledger detail fp (record.claim fp).1 := by
  unfold Idempotency.resolve at hres ⊢
  split at hres
  case h_1 =>
    unfold Idempotency.resolveMissingKey at hres
    split at hres <;> cases hres
  case h_2 => cases hres
  case h_3 key hkey =>
    cases hstream : parsed.stream with
    | true =>
      rw [if_pos hstream] at hres
      cases hres
    | false =>
      rw [if_neg (by simp [hstream])] at hres
      refine ⟨rfl, ?_⟩
      cases hledger : id.ledger with
      | true =>
        rw [if_pos hledger] at hres
        unfold claimLedger at hres ⊢
        cases hp : ledgerPrincipal q with
        | none => simp [hp] at hres
        | some principal =>
          cases hfp : q.ledgerFingerprint with
          | none => simp [hp, hfp] at hres
          | some fp =>
            by_cases hvalid : validClaim principal (Text.trimSpace key) (Text.trimSpace fp) = true
            · simp only [hp, hfp, hvalid, if_true] at hres
              obtain ⟨rfl, rfl⟩ := applyOutcome_granted hres hreplay
              exact ⟨fp, "", rfl, rfl, by simp [Idempotency.serves, hledger], fun record => by simp [hvalid]⟩
            · simp [hp, hfp, hvalid] at hres
      | false =>
        rw [if_neg (by simp [hledger])] at hres
        cases hstore : id.store with
        | false => simp [hstore] at hres
        | true =>
          rw [if_neg (by simp [hstore])] at hres
          unfold claimStore at hres ⊢
          cases hp : orgIDFromAuth q with
          | none => simp [hp] at hres
          | some org =>
            cases hfp : q.storeFingerprint with
            | none => simp [hp, hfp] at hres
            | some fp =>
              simp only [hp, hfp] at hres
              obtain ⟨rfl, rfl⟩ := applyOutcome_granted hres hreplay
              exact ⟨fp, "retry after a short backoff", rfl, rfl, by simp [Idempotency.serves, hledger, hstore],
                fun record => by simp⟩

theorem serve_isPending (errorBody : ApiError → Text) (h : ChatCompletionHandler) (env : Env) (r : Context)
    (prov : Text)
    (hres : id.resolve q parsed record = (.goOn (some claim), record')) (hreplay : claim.replay = false) :
    (serve id errorBody h env r parsed prov q record).isPending = canceledInFlight h env r parsed prov := by
  obtain ⟨hstream, fp, detail, rfl, rfl, hclaim, -⟩ := resolve_granted hres hreplay
  simp only [serve, hres]
  rw [← canceledInFlight_withKey h env (.goOn (some ⟨fp, none, id.ledger⟩)) r parsed prov]
  exact isPending_dispatchProviderCompletion h _ hclaim r parsed hstream prov

/-- Nothing but a pending record is answered with `in progress`. -/
theorem inProgress_of_granted (hres : id.resolve q parsed record = (.goOn (some claim), record'))
    (hreplay : claim.replay = false) {after : KeyRecord Text} (hafter : after.isPending = false) :
    (id.resolve q parsed after).1.inProgress = false := by
  obtain ⟨-, fp, detail, -, -, -, hretry⟩ := resolve_granted hres hreplay
  rw [hretry, Bool.eq_false_iff, ne_eq, applyOutcome_inProgress]
  rintro rfl
  cases hafter

end Chat

/-! ## Terminate -/

namespace Terminate

def Answer.inProgress : Answer → Bool
  | .error _ code _ _ => code == .idempotencyInProgress
  | .json _ _ => false

def SessionFound (h : SessionTerminateHandler) (q : TerminateRequest) : Prop :=
  ∃ complete orgId agentId result, h.completeByExternalID = some complete ∧ q.authOrgId = some orgId ∧
    q.agentId = some agentId ∧ complete orgId agentId (Text.trimSpace q.sessionId) = some result ∧ result ≠ .notFound

variable {h : SessionTerminateHandler} {q : TerminateRequest} {record : KeyRecord Text} {id : TerminateIdentity}
  {requestHash : Text}

theorem admitTermination_eq_ok (hok : admitTermination h q = .ok (id, some requestHash)) :
    h.ledger = true ∧ q.authOrgId = some id.orgId ∧ q.agentId = some id.agentId ∧
      id.externalId = Text.trimSpace q.sessionId := by
  obtain ⟨-, -, hok⟩ := Except.bind_eq_ok.mp hok
  obtain ⟨id', hid, hok⟩ := Except.bind_eq_ok.mp hok
  obtain ⟨body, -, hok⟩ := Except.bind_eq_ok.mp hok
  have hledger : h.ledger = true := by
    cases hledger : h.ledger with
    | true => rfl
    | false =>
      rw [if_neg (by simp [hledger])] at hok
      cases hok
  rw [if_pos hledger] at hok
  obtain ⟨-, -, hok⟩ := Except.bind_eq_ok.mp hok
  cases hok
  simp only [resolveTerminateIdentity, Except.check_eq_ok] at hid
  obtain ⟨-, hid⟩ := hid
  split at hid
  case h_1 | h_2 => cases hid
  case h_3 orgId agentId horg hagent =>
    cases hid
    exact ⟨hledger, horg, hagent, rfl⟩

theorem completeSession_eq_ok : (∃ result, completeSession h id = .ok result) ↔
    ∃ complete result, h.completeByExternalID = some complete ∧
      complete id.orgId id.agentId id.externalId = some result ∧ result ≠ .notFound := by
  unfold completeSession
  cases h.completeByExternalID with
  | none => simp
  | some complete =>
    rcases hout : complete id.orgId id.agentId id.externalId with _ | _ | _ | _ <;> simp [hout]

section

variable (hok : admitTermination h q = .ok (id, some requestHash))
include hok

theorem sessionFound_iff : SessionFound h q ↔ ∃ result, completeSession h id = .ok result := by
  obtain ⟨-, horg, hagent, hext⟩ := admitTermination_eq_ok hok
  rw [completeSession_eq_ok, SessionFound, hext]
  constructor
  · rintro ⟨complete, orgId, agentId, result, hstore, horg', hagent', hout, hfound⟩
    cases horg.symm.trans horg'
    cases hagent.symm.trans hagent'
    exact ⟨complete, result, hstore, hout, hfound⟩
  · rintro ⟨complete, result, hstore, hout, hfound⟩
    exact ⟨complete, _, _, result, hstore, horg, hagent, hout, hfound⟩

/-- A claim that was granted is finalized when the session is completed, and kept otherwise. -/
theorem serveHTTP_isPending
    (hclaim : (record.claim requestHash).1 = .owned) :
    (serveHTTP h q record).record.isPending = false ↔ ∃ result, completeSession h id = .ok result := by
  have hpending : record.claim requestHash = (.owned, .pending requestHash) := by
    cases record with
    | free => rfl
    | pending fp | completed fp => by_cases hfp : fp = requestHash <;> simp [KeyRecord.claim, hfp] at hclaim
  have hledger := (admitTermination_eq_ok hok).1
  simp only [serveHTTP, hok, hpending, writeClaimOutcome, terminate]
  cases completeSession h id with
  | error answer => simp [KeyRecord.isPending]
  | ok result => simp [hledger, KeyRecord.isPending]

theorem not_inProgress_of_settled
    (hrecord : record.isPending = false) : (serveHTTP h q record).answer.inProgress = false := by
  have hcomplete : ∀ answer, completeSession h id = .error answer → answer.inProgress = false := by
    intro answer hanswer
    unfold completeSession at hanswer
    split at hanswer
    · cases hanswer
      rfl
    · split at hanswer <;> cases hanswer <;> rfl
  simp only [serveHTTP, hok]
  cases record with
  | pending fp => cases hrecord
  | free =>
    simp only [KeyRecord.claim, writeClaimOutcome, terminate]
    split
    · exact hcomplete _ ‹_›
    · rfl
  | completed fp status body =>
    by_cases hfp : fp = requestHash <;> simp [KeyRecord.claim, hfp, writeClaimOutcome, Answer.inProgress]

end

end Terminate

/-! ## Keys -/

section Keys

open Chat

theorem Chat.parseKey_eq_key {header key : Text} (h : parseKey header = .key key) :
    key = Text.trimSpace header ∧ key ≠ [] := by
  unfold parseKey at h
  dsimp only at h
  split at h
  · cases h
  · rename_i hempty
    split at h
    · cases h
    · cases h
      exact ⟨rfl, by simpa using hempty⟩

theorem Chat.applyOutcome_ne_unavailable (ledger : Bool) (detail : String) (fp : Text) (kind : Kind Text) :
    applyOutcome ledger detail fp kind ≠ .refused ledgerUnavailable := by
  cases kind <;> simp [applyOutcome, keyReuse, keyInProgress, ledgerUnavailable]

/-- A key that `ParseKey` accepts is one that the ledger takes exactly if it has at most 256 bytes, since the header is
measured in code points; for a longer one the request is answered with 503. -/
theorem parsed_key_claimable_iff {header key fp : Text} {p : Principal} (hkey : parseKey header = .key key)
    (horg : p.orgId ≠ 0) (hagent : p.agentId ≠ 0) (hfp : Text.trimSpace fp ≠ []) :
    (∀ lease, (ClaimCall.mk .go p key fp lease).prepare.valid = true ↔ Text.byteLength key ≤ 256) ∧
    ∀ (id : Chat.Idempotency) (q : KeyedRequest) (parsed : ChatCompletionRequest) (record : KeyRecord Text),
      q.header = header → id.ledger = true → parsed.stream = false → ledgerPrincipal q = some p →
        q.ledgerFingerprint = some fp →
          ((id.resolve q parsed record).1 = .refused ledgerUnavailable ↔ 256 < Text.byteLength key) := by
  have hvalid : validClaim p (Text.trimSpace key) (Text.trimSpace fp) = true ↔ Text.byteLength key ≤ 256 := by
    obtain ⟨rfl, hne⟩ := parseKey_eq_key hkey
    have ho : (p.orgId != 0) = true := by simpa using horg
    have ha : (p.agentId != 0) = true := by simpa using hagent
    simp [validClaim, ho, ha, Text.trimSpace_trimSpace, hne, hfp]
  refine ⟨fun lease => hvalid, ?_⟩
  intro id q parsed record hheader hledger hstream hprincipal hhash
  subst hheader
  simp only [Idempotency.resolve, hkey, hstream, hledger, claimLedger, hprincipal, hhash, Bool.false_eq_true, if_false,
    if_true]
  by_cases hlen : Text.byteLength key ≤ 256
  · rw [if_pos (hvalid.mpr hlen)]
    exact iff_of_false (applyOutcome_ne_unavailable true "" fp _) (Nat.not_lt.mpr hlen)
  · rw [if_neg (mt hvalid.mp hlen)]
    exact iff_of_true rfl (Nat.lt_of_not_le hlen)

theorem parsed_key_claimable_sample : (ClaimCall.mk .go ⟨1, 2⟩ ['k'] ['f'] 60).prepare.valid = true := by
  have hkey : parseKey [' ', 'k'] = .key ['k'] := by decide
  exact ((parsed_key_claimable_iff hkey (by decide) (by decide) (by decide)).1 60).mpr (by decide)

/-- 129 letters of two bytes each: `ParseKey` accepts the key, `Claim` answers `ErrInvalidLedgerClaim` and the client
gets 503. -/
theorem parsed_key_unclaimable :
    let header := List.replicate 129 'é'
    parseKey header = .key header ∧ (ClaimCall.mk .go ⟨1, 2⟩ header ['f'] 60).prepare.valid = false ∧
      ((⟨true, false⟩ : Chat.Idempotency).resolve ⟨header, some 1, some 2, some ['f'], some ['f']⟩
        ⟨['m'], [⟨['u'], ['h', 'i']⟩], false, none⟩ .free).1 = .refused ledgerUnavailable := by
  decide +kernel

end Keys

/-! ## Both -/

/-- When the handler returns, the claim it was granted has been finalized or released, and a retry is not answered with
`in progress`, exactly if the chat client does not go away while the provider is answering, and exactly if the session
that a terminate request names is found. -/
theorem claims_settled_iff (h : Chat.ChatCompletionHandler) (t : Terminate.SessionTerminateHandler) :
    (∀ id errorBody env r parsed prov q record, Chat.ClaimGranted id q parsed record →
      ((Chat.serve id errorBody h env r parsed prov q record).isPending = false ∧
          (id.resolve q parsed (Chat.serve id errorBody h env r parsed prov q record)).1.inProgress = false ↔
        Chat.canceledInFlight h env r parsed prov = false)) ∧
    ∀ q record, Terminate.ClaimGranted t q record → ((Terminate.serveHTTP t q record).record.isPending = false ∧
          (Terminate.serveHTTP t q (Terminate.serveHTTP t q record).record).answer.inProgress = false ↔
        Terminate.SessionFound t q) := by
  constructor
  · rintro id errorBody env r parsed prov q record ⟨claim, record', hres, hreplay⟩
    rw [← Chat.serve_isPending errorBody h env r prov hres hreplay]
    exact ⟨And.left, fun hsettled => ⟨hsettled, Chat.inProgress_of_granted hres hreplay hsettled⟩⟩
  · rintro q record ⟨id, requestHash, hok, hclaim⟩
    rw [Terminate.sessionFound_iff hok, ← Terminate.serveHTTP_isPending hok hclaim]
    exact ⟨And.left, fun hsettled => ⟨hsettled, Terminate.not_inProgress_of_settled hok hsettled⟩⟩

section Example

def Chat.plainHandler : ChatCompletionHandler where
  budgetLedger := none
  budgetCache := none
  policyFallback := none
  modelRouter := none
  credentialResolver := none
  maxFallbackDepth := 1
  globs := ⟨(fun t => t), fun _ _ => some true⟩
  hashRequest := (fun t => t)
  sanitizeProviderDetail := fun _ => ""
  usageFromJSON := fun _ => none

def Chat.timeoutEnv (ctxErr : Nat → Option CtxErr) : Env where
  ctxErr := ctxErr
  bearer := none
  resolveIdempotency := fun _ => none
  applyInjection := fun _ _ messages => messages
  complete := fun _ _ _ => .error ⟨false, false, true, none⟩
  readAllBody := fun _ => .ok []
  processResponseBody := fun _ body => .ok body
  streamCopy := fun _ => ⟨[], none, true⟩
  flusher := true

def Chat.plainContext : Context := ⟨['r'], some 2, some 1, none⟩

def Chat.plainRequest : ChatCompletionRequest := ⟨['m'], [⟨['u'], ['h', 'i']⟩], false, none⟩

def Chat.keyedRequest : KeyedRequest := ⟨['k'], some 1, some 2, some ['f'], some ['f']⟩

theorem Chat.keyedRequest_granted : ClaimGranted ⟨true, false⟩ keyedRequest plainRequest .free :=
  ⟨⟨['f'], none, true⟩, .pending ['f'], by decide +kernel, rfl⟩

def Terminate.plainHandler (result : CompleteResult) : SessionTerminateHandler where
  ledger := true
  completeByExternalID := some fun _ _ _ => some result
  hashRequest := fun t => t
  marshalBody := fun body => body.status
  terminateOKBody := fun externalId => externalId

def Terminate.plainRequest : TerminateRequest :=
  ⟨"POST".toList, ['s'], some 1, some 2, some ⟨[], "completed".toList⟩, ['k']⟩

theorem Terminate.plainRequest_granted (result : CompleteResult) :
    ClaimGranted (plainHandler result) plainRequest .free :=
  ⟨⟨1, 2, ['s']⟩, (plainHandler result).requestHash ⟨1, 2, ['s']⟩ ⟨[], "completed".toList⟩, by
    cases result <;> decide +kernel, rfl⟩

/-- A provider that times out for a client that stays, and a session that is completed already. -/
theorem claims_settled_iff_sample :
    (Chat.serve ⟨true, false⟩ (fun _ => []) Chat.plainHandler (Chat.timeoutEnv fun _ => none) Chat.plainContext
        Chat.plainRequest ['p'] Chat.keyedRequest .free).isPending = false ∧
      (Terminate.serveHTTP (Terminate.plainHandler .noop) Terminate.plainRequest .free).record.isPending = false :=
  ⟨(((claims_settled_iff _ (Terminate.plainHandler .noop)).1 _ _ _ _ _ _ _ _ Chat.keyedRequest_granted).mpr
    (by decide +kernel)).1, (((claims_settled_iff Chat.plainHandler _).2 _ _ (Terminate.plainRequest_granted .noop)).mpr
      ⟨_, 1, 2, .noop, rfl, rfl, rfl, rfl, nofun⟩).1⟩

/-- The client goes away during the provider's call, or the session is not found: the claim stays, and the same request
again is answered with `in progress`. -/
theorem claims_left_pending : (Chat.ClaimGranted ⟨true, false⟩ Chat.keyedRequest Chat.plainRequest .free ∧
      let after := Chat.serve ⟨true, false⟩ (fun _ => []) Chat.plainHandler
        (Chat.timeoutEnv fun t => if t < 3 then none else some .canceled) Chat.plainContext Chat.plainRequest ['p']
        Chat.keyedRequest .free
      after = .pending ['f'] ∧
        ((⟨true, false⟩ : Chat.Idempotency).resolve Chat.keyedRequest Chat.plainRequest after).1.inProgress = true) ∧
    Terminate.ClaimGranted (Terminate.plainHandler .notFound) Terminate.plainRequest .free ∧
      let served := Terminate.serveHTTP (Terminate.plainHandler .notFound) Terminate.plainRequest .free
      served.answer = .error 404 .invalidRequest "Session not found" "" ∧ served.record.isPending = true ∧
        (Terminate.serveHTTP (Terminate.plainHandler .notFound) Terminate.plainRequest served.record).answer.inProgress
          = true := by
  refine ⟨⟨Chat.keyedRequest_granted, ?_⟩, Terminate.plainRequest_granted .notFound, ?_⟩
  · decide +kernel
  · decide +kernel

end Example

end IbexHarness
