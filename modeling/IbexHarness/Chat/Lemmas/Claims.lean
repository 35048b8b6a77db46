import IbexHarness.Chat.Idempotency

/-! Most of the handler is quiet: whatever it asks and emits, the record of the request's key stays. -/

namespace IbexHarness.Chat

open Lib Budget
open IbexHarness.Idempotency hiding Principal

/-- What the events so far have done to a key that `claim` has been granted. -/
def State.settling (id : Idempotency) (errorBody : ApiError → Text) (claim : Claim) (s : State) :
  Idempotency.Settling := s.trace.foldl (id.settle errorBody claim) ⟨.pending claim.fp, []⟩

def State.record (id : Idempotency) (errorBody : ApiError → Text) (claim : Claim) (s : State) : KeyRecord Text :=
  (s.settling id errorBody claim).record

theorem settling_emit (id : Idempotency) (errorBody : ApiError → Text) (claim : Claim) (s : State) (e : Event) :
    ((emit e).run s).2.settling id errorBody claim = id.settle errorBody claim (s.settling id errorBody claim) e :=
  List.foldl_concat _ _ _ _

def Event.quiet : Event → Bool
  | .abandonIdempotency _ | .finishIdempotency _ _ => false
  | _ => true

def Quiet {α : Type} (m : HandlerM α) : Prop :=
  ∀ id errorBody claim s, (m.run s).2.record id errorBody claim = s.record id errorBody claim

namespace Quiet

variable {α β : Type}

theorem pure (a : α) : Quiet (pure a : HandlerM α) := fun _ _ _ _ => rfl

theorem bind {x : HandlerM α} {f : α → HandlerM β} (hx : Quiet x) (hf : ∀ a, Quiet (f a)) : Quiet (x >>= f) :=
  fun id errorBody claim s => (hf _ id errorBody claim _).trans (hx id errorBody claim s)

theorem ask (question : Nat → α) : Quiet (Chat.ask question) := fun _ _ _ _ => rfl

theorem emit {e : Event} (he : e.quiet = true) : Quiet (Chat.emit e) := by
  intro id errorBody claim s
  rw [State.record, settling_emit]
  cases e with
  | abandonIdempotency | finishIdempotency => cases he
  | _ => rfl

theorem newReservation (res : BudgetReservation) : Quiet (Chat.newReservation res) := fun _ _ _ _ => rfl

theorem markSettled (ptr : Nat) : Quiet (Chat.markSettled ptr) := fun _ _ _ _ => rfl

theorem budgetReservationFromContext (ctx : Context) : Quiet (Chat.budgetReservationFromContext ctx) :=
  fun _ _ _ _ => rfl

theorem ite {c : Prop} [Decidable c] {x y : HandlerM α} (hx : Quiet x) (hy : Quiet y) : Quiet (if c then x else y) := by
  split
  · exact hx
  · exact hy

end Quiet

variable (h : ChatCompletionHandler) (env : Env)

theorem quiet_releaseBudget (ctx : Context) (reason : String) : Quiet (releaseBudget ctx reason) := by
  refine .bind (.budgetReservationFromContext ctx) fun found => ?_
  cases found with
  | none => exact .pure _
  | some p => exact .ite (.pure _) (.bind (.markSettled _) fun _ => .emit rfl)

theorem quiet_settleBudgetOutcome (ctx : Context) (i : BudgetSettlement) : Quiet (settleBudgetOutcome h ctx i) := by
  refine .bind (.budgetReservationFromContext ctx) fun found => ?_
  cases found with
  | none => exact .pure _
  | some p =>
    refine .ite (.pure _) (.bind (.markSettled _) fun _ => .ite ?_ (.emit rfl))
    exact .bind (.emit rfl) fun _ => .pure _

theorem quiet_claimHoldTimed (claim : Nat → Principal → ClaimRequest → Option Go.ClaimOutcome) (p : Principal)
    (req : ClaimRequest) : Quiet (claimHoldTimed claim p req) :=
  .bind (.ask _) fun _ => .bind (.emit rfl) fun _ => .pure _

theorem quiet_applyBudgetClaim (r : Context) (out : Go.ClaimOutcome) (estimate : Int) (snap : BudgetSnapshot) :
    Quiet (applyBudgetClaim r out estimate snap) := by
  cases out with
  | owned => exact .bind (.newReservation _) fun _ => .pure _
  | noCap => exact .pure _
  | _ => exact .bind (.emit rfl) fun _ => .pure _

theorem quiet_claimAndApply (claim : Nat → Principal → ClaimRequest → Option Go.ClaimOutcome) (r : Context)
    (p : Principal) (key : Text) (estimate : Int) (snap : BudgetSnapshot) :
    Quiet (claimAndApply h claim r p key estimate snap) := by
  refine .bind (quiet_claimHoldTimed _ _ _) fun out => ?_
  cases out with
  | none => exact .bind (.emit rfl) fun _ => .pure _
  | some out => exact quiet_applyBudgetClaim _ _ _ _

theorem quiet_claimBudgetAdmission (r : Context) (i : AdmissionInput) : Quiet (claimBudgetAdmission h r i) := by
  unfold claimBudgetAdmission
  split
  · split
    · exact .bind (.emit rfl) fun _ => .pure _
    · refine .bind (.ask _) fun snap => ?_
      cases snap with
      | none => exact .bind (.emit rfl) fun _ => .pure _
      | some snap =>
        refine .ite (.pure _) ?_
        split
        · exact .bind (.emit rfl) fun _ => .pure _
        · exact quiet_claimAndApply h _ _ _ _ _ _
  · exact .pure _

theorem quiet_reclaim (claim : Nat → Principal → ClaimRequest → Option Go.ClaimOutcome) (r : Context) (p : Principal)
    (key : Text) (estimate : Int) (card : Billing.CardVersion) : Quiet (reclaim h claim r p key estimate card) := by
  refine .bind (quiet_claimHoldTimed _ _ _) fun out => ?_
  split
  · exact .bind (.newReservation _) fun _ => .pure _
  · exact .pure _

theorem quiet_rebudgetForFallback (r : Context) (i : AdmissionInput) : Quiet (rebudgetForFallback h r i) := by
  refine .bind (.budgetReservationFromContext r) fun found => ?_
  split
  · split
    · exact .pure _
    · split
      · exact .pure _
      · exact .bind (quiet_releaseBudget _ _) fun _ => quiet_reclaim h _ _ _ _ _ _
  · exact .pure _

theorem quiet_complete (prov : Text) (req : ProviderRequest) : Quiet (complete env prov req) :=
  .bind (.emit rfl) fun _ => .ask _

theorem quiet_classifyFallbackHopErr (err : Err) (hopReq : ProviderRequest) :
    Quiet (classifyFallbackHopErr env err hopReq) :=
  .bind (.ask _) fun _ => .ite (.pure _) (.ite (.pure _) (.pure _))

theorem quiet_runFallbackHop (args : WalkFallbackArgs) (r : Context) (hopProv hopModel : Text) :
    Quiet (runFallbackHop env args r hopProv hopModel) := by
  refine .bind (quiet_complete env _ _) fun res => ?_
  cases res with
  | error => exact .bind (quiet_releaseBudget _ _) fun _ => quiet_classifyFallbackHopErr env _ _
  | ok => exact .pure _

section

variable (args : WalkFallbackArgs) (forOrg : Nat → Uuid → Text → Except RouteError Text) (r : Context)

theorem quiet_tryFallbackHop (hopModel : Text) : Quiet (tryFallbackHop h env args forOrg r hopModel) := by
  refine .bind (.ask _) fun route => ?_
  cases route with
  | error => exact .pure _
  | ok hopProv =>
    refine .bind (quiet_rebudgetForFallback h _ _) fun res => .ite (.pure _) ?_
    exact .bind (quiet_runFallbackHop env _ _ _ _) fun _ => .pure _

theorem quiet_walkFallbackChain (chain : List Text) : Quiet (walkFallbackChain h env args forOrg r chain) := by
  induction chain generalizing r with
  | nil => exact .pure _
  | cons hopModel chain ih =>
    refine .bind (.ask _) fun _ => .ite (.pure _) (.bind (quiet_tryFallbackHop h env _ _ _ _) fun res => ?_)
    split
    · exact .pure _
    · exact .pure _
    · exact ih _

end

theorem quiet_tryFallbackComplete (r : Context) (parsed : ChatCompletionRequest) (primaryReq : ProviderRequest)
    (reason : FallbackReason) : Quiet (tryFallbackComplete h env r parsed primaryReq reason) := by
  unfold tryFallbackComplete
  split
  · refine .bind (.ask _) fun chain => ?_
    cases chain with
    | none => exact .pure _
    | some chain => exact quiet_walkFallbackChain h env _ _ _ _
  · exact .pure _

theorem quiet_applyCredentialOverride (r : Context) (prov : Text) (provReq : ProviderRequest) :
    Quiet (applyCredentialOverride h env r prov provReq) := by
  unfold applyCredentialOverride
  split
  · exact .pure _
  · refine .ite (.pure _) ?_
    split
    · exact .bind (.emit rfl) fun _ => .pure _
    · refine .bind (.ask _) fun credential => ?_
      split
      · exact .pure _
      · exact .bind (.emit rfl) fun _ => .pure _

def State.asked (s : State) : State := { s with tick := s.tick + 1 }

/-- Reading the body of the provider's response fails because the request was canceled. -/
def bodyCanceled (env : Env) (s : State) : Bool :=
  match env.readAllBody s.tick with
  | .error (.failed err) => err.canceled
  | _ => false

/-- The request is canceled when the failure of the provider or of the fallback chain is looked at. -/
def failsCanceled (r : Context) (parsed : ChatCompletionRequest) (provReq : ProviderRequest) (err : Err) (s : State) :
    Bool :=
  err.canceled || env.ctxErr s.tick == some .canceled || (env.ctxErr s.asked.tick).isNone &&
      match fallbackEligible err provReq with
      | none => false
      | some reason =>
        match (tryFallbackComplete h env r parsed provReq reason).run s.asked.asked with
        | (none, s') => env.ctxErr s'.tick == some .canceled
        | (some _, s') => bodyCanceled env s'

def endsCanceled (r : Context) (parsed : ChatCompletionRequest) (prov : Text) (provReq : ProviderRequest) (s : State) :
    Bool :=
  match (complete env prov provReq).run s with
  | (.error err, s') => failsCanceled h env r parsed provReq err s'
  | (.ok _, s') => bodyCanceled env s'

/-- The part of `dispatchProviderCompletion` before the provider is called; none if it ends there. -/
def admission (r : Context) (parsed : ChatCompletionRequest) (prov : Text) :
    HandlerM (Option (Context × ProviderRequest)) := do
  if (← ask env.ctxErr) == some .canceled then return none
  let messages ← ask fun t => env.applyInjection t parsed.model parsed.messages
  match ← applyCredentialOverride h env r prov { toProviderRequest parsed with messages } with
  | none => return none
  | some provReq =>
    match ← claimBudgetAdmission h r ⟨prov, provReq.model, provReq.messages, maxTokensFromParsed parsed⟩ with
    | (_, false) => return none
    | (r', true) => return some (r', provReq)

/-- The client goes away while the provider, or a fallback for it, is answering. -/
def canceledInFlight (r : Context) (parsed : ChatCompletionRequest) (prov : Text) : Bool :=
  match (admission h env r parsed prov).run State.start.asked with
  | (none, _) => false
  | (some (r', provReq), s) => endsCanceled h env r' parsed prov provReq s

theorem run_ask_bind {α β : Type} (question : Nat → α) (f : α → HandlerM β) (s : State) :
    (ask question >>= f).run s = (f (question s.tick)).run s.asked := rfl

theorem run_bind {α β : Type} (x : HandlerM α) (f : α → HandlerM β) (s : State) :
    (x >>= f).run s = (f (x.run s).1).run (x.run s).2 := rfl

def Idempotency.serves (id : Idempotency) (claim : Claim) : Bool := if id.ledger then claim.ledger else id.store

section

variable {id : Idempotency} {errorBody : ApiError → Text} {claim : Claim} {c : IdempotencyClaim} {s : State}

theorem finish_isPending (hclaim : id.serves claim = true) (status : Int) (body : Text) (record : KeyRecord Text) :
    (id.finish (some claim) status body record).isPending = false := by
  have hcommit : (Idempotency.commitOrRelease claim status body).isPending = false := by
    unfold Idempotency.commitOrRelease
    split <;> rfl
  unfold Idempotency.serves at hclaim
  cases hledger : id.ledger with
  | true =>
    rw [if_pos hledger] at hclaim
    simp [Idempotency.finish, hledger, hclaim, hcommit]
  | false =>
    rw [if_neg (by simp [hledger])] at hclaim
    simp [Idempotency.finish, hledger, hclaim, hcommit]

theorem abandon_isPending (hclaim : id.serves claim = true) (record : KeyRecord Text) :
    (id.abandon (some claim) record).isPending = false := by
  unfold Idempotency.serves at hclaim
  cases hledger : id.ledger with
  | true =>
    rw [if_pos hledger] at hclaim
    simp [Idempotency.abandon, hledger, hclaim, KeyRecord.isPending]
  | false =>
    rw [if_neg (by simp [hledger])] at hclaim
    simp [Idempotency.abandon, hledger, hclaim, KeyRecord.isPending]

def State.isPending (id : Idempotency) (errorBody : ApiError → Text) (claim : Claim) (s : State) : Bool :=
  (s.record id errorBody claim).isPending

theorem Quiet.isPending {α : Type} {m : HandlerM α} (hm : Quiet m) (id : Idempotency) (errorBody : ApiError → Text)
    (claim : Claim) (s : State) : (m.run s).2.isPending id errorBody claim = s.isPending id errorBody claim :=
  congrArg KeyRecord.isPending (hm id errorBody claim s)

theorem isPending_abandonIdempotency (hclaim : id.serves claim = true) :
    ((abandonIdempotency (some c)).run s).2.isPending id errorBody claim = false := by
  rw [abandonIdempotency, State.isPending, State.record, settling_emit]
  exact abandon_isPending hclaim _

theorem isPending_finishIdempotency (hclaim : id.serves claim = true) (status : Int) :
    ((finishIdempotency (some c) status).run s).2.isPending id errorBody claim = false := by
  rw [finishIdempotency, State.isPending, State.record, settling_emit]
  exact finish_isPending hclaim _ _ _

theorem mapError_eq_none {sanitize : Text → String} {err : Err} :
    mapError sanitize err = none ↔ err.canceled = true := by
  unfold mapError
  cases err.canceled with
  | true => simp
  | false =>
    simp only [Bool.false_eq_true, if_false, iff_false]
    split
    · nofun
    · split <;> nofun

section

variable (hclaim : id.serves claim = true)
include hclaim

theorem isPending_writeProviderFailure (r : Context) (err : Err) :
    ((writeProviderFailure h r err (some c)).run s).2.isPending id errorBody claim =
      (err.canceled && s.isPending id errorBody claim) := by
  have hquiet := (quiet_releaseBudget r "provider_failure").isPending id errorBody claim s
  cases hmap : mapError h.sanitizeProviderDetail err with
  | none =>
    have hcanceled := mapError_eq_none.mp hmap
    have hrun : ((writeProviderFailure h r err (some c)).run s).2 =
        ((releaseBudget r "provider_failure").run s).2 := by
      unfold writeProviderFailure
      rw [hmap]
      rfl
    rw [hrun, hquiet, hcanceled, Bool.true_and]
  | some mapped =>
    have hcanceled : err.canceled = false := by
      refine Bool.eq_false_iff.mpr fun hcanceled => ?_
      rw [mapError_eq_none.mpr hcanceled] at hmap
      cases hmap
    rw [hcanceled, Bool.false_and]
    unfold writeProviderFailure
    rw [hmap]
    exact isPending_finishIdempotency hclaim mapped.httpStatus

section

variable (r : Context) (parsed : ChatCompletionRequest)

theorem isPending_writeJSONSuccess (providerName : Text) (resp : Response) (audit : FallbackAudit) (out : Text) :
    ((writeJSONSuccess h r parsed providerName resp (some c) audit out).run s).2.isPending id errorBody claim = false :=
  ((quiet_settleBudgetOutcome h r _).isPending id errorBody claim _).trans
    (isPending_finishIdempotency hclaim resp.statusCode)

theorem isPending_writeProviderSuccess (providerName : Text) (resp : Response) (audit : FallbackAudit) :
    ((writeProviderSuccess h env r parsed providerName resp (some c) audit).run s).2.isPending id errorBody claim =
      (bodyCanceled env s && s.isPending id errorBody claim) := by
  rw [writeProviderSuccess, run_ask_bind, bodyCanceled]
  rcases env.readAllBody s.tick with (_ | err) | body
  · exact isPending_writeProviderFailure h hclaim r _
  · exact isPending_writeProviderFailure h hclaim r err
  · rw [run_ask_bind, Bool.false_and]
    cases env.processResponseBody s.asked.tick body with
    | error e => exact isPending_writeProviderFailure h hclaim r _
    | ok out => exact isPending_writeJSONSuccess h hclaim r parsed providerName resp audit out

theorem isPending_finishProviderResponse
    (hstream : parsed.stream = false) (prov : Text) (resp : Response) (audit : FallbackAudit) :
    ((finishProviderResponse h env r parsed (some c) prov resp audit).run s).2.isPending id errorBody claim =
      (bodyCanceled env s && s.isPending id errorBody claim) := by
  rw [finishProviderResponse, if_neg (by simp [hstream])]
  exact isPending_writeProviderSuccess h env hclaim r parsed prov resp audit

end

end

theorem not_canceled_of_or {err : Err} {b : Bool} (h : ¬(err.canceled || b) = true) : err.canceled = false := by
  simp only [Bool.or_eq_true, not_or, Bool.not_eq_true] at h
  exact h.1

section

variable (hclaim : id.serves claim = true)
include hclaim

theorem exitPrimaryCompleteError_run {e : ApiError → Text} (r : Context) (err : Err) :
    let out := (exitPrimaryCompleteError h env r (some c) err).run s
    if err.canceled || env.ctxErr s.tick == some .canceled then
      out.1 = true ∧ out.2.isPending id e claim = s.isPending id e claim
    else if (env.ctxErr s.asked.tick).isSome then out.1 = true ∧ out.2.isPending id e claim = false
    else out = (false, s.asked.asked) := by
  intro out
  have hout : out = (exitPrimaryCompleteError h env r (some c) err).run s := rfl
  rw [exitPrimaryCompleteError, run_ask_bind] at hout
  split
  case isTrue hcanceled =>
    rw [if_pos hcanceled] at hout
    rw [hout]
    exact ⟨rfl, (quiet_releaseBudget r "canceled").isPending id e claim _⟩
  case isFalse hcanceled =>
    rw [if_neg hcanceled, run_ask_bind] at hout
    split
    case isTrue hdone =>
      rw [if_pos hdone] at hout
      rw [hout]
      refine ⟨rfl, (isPending_writeProviderFailure h hclaim r err).trans ?_⟩
      rw [not_canceled_of_or hcanceled, Bool.false_and]
    case isFalse hdone =>
      rw [if_neg hdone] at hout
      exact hout

section

variable (r : Context) (parsed : ChatCompletionRequest) (hstream : parsed.stream = false)
include hstream

theorem isPending_fallback (provReq : ProviderRequest) (err : Err) (reason : FallbackReason)
    (herr : err.canceled = false) :
    ((do
      match ← tryFallbackComplete h env r parsed provReq reason with
      | none =>
        if (← ask env.ctxErr) == some .canceled then releaseBudget r "canceled"
        else writeProviderFailure h r err (some c)
      | some fb =>
        finishProviderResponse h env fb.r parsed (some c) fb.prov fb.resp
          ⟨fallbackOriginalModel provReq.model parsed, fb.model, some fb.reason⟩ : HandlerM Unit).run s).2.isPending
      id errorBody claim =
      ((match (tryFallbackComplete h env r parsed provReq reason).run s with
        | (none, s') => env.ctxErr s'.tick == some .canceled
        | (some _, s') => bodyCanceled env s') && s.isPending id errorBody claim) := by
  have hquiet := (quiet_tryFallbackComplete h env r parsed provReq reason).isPending id errorBody claim s
  rw [run_bind]
  rcases htry : (tryFallbackComplete h env r parsed provReq reason).run s with ⟨res, s'⟩
  rw [htry] at hquiet
  cases res with
  | none =>
    rw [run_ask_bind, ← hquiet]
    change _ = (env.ctxErr s'.tick == some .canceled && s'.isPending id errorBody claim)
    cases env.ctxErr s'.tick == some .canceled with
    | true => exact (quiet_releaseBudget r "canceled").isPending id errorBody claim _
    | false =>
      refine (isPending_writeProviderFailure h hclaim r err).trans ?_
      rw [herr, Bool.false_and, Bool.false_and]
  | some fb =>
    rw [← hquiet]
    exact isPending_finishProviderResponse h env hclaim fb.r parsed hstream fb.prov fb.resp _

theorem isPending_handlePrimaryCompleteError (provReq : ProviderRequest) (err : Err) :
    ((handlePrimaryCompleteError h env r parsed (some c) provReq err).run s).2.isPending id errorBody claim =
      (failsCanceled h env r parsed provReq err s && s.isPending id errorBody claim) := by
  have hexit := exitPrimaryCompleteError_run h env hclaim r err (s := s) (c := c) (e := errorBody)
  rw [handlePrimaryCompleteError, run_bind, failsCanceled]
  split at hexit
  case isTrue hcanceled =>
    rw [hexit.1, if_pos rfl, hcanceled, Bool.true_or, Bool.true_and]
    exact hexit.2
  case isFalse hcanceled =>
    rw [Bool.eq_false_iff.mpr hcanceled, Bool.false_or]
    split at hexit
    case isTrue hdone =>
      rw [hexit.1, if_pos rfl, Option.isNone_eq_false_iff.mpr hdone, Bool.false_and, Bool.false_and]
      exact hexit.2
    case isFalse hdone =>
      rw [hexit, if_neg Bool.false_ne_true, Option.isNone_iff_eq_none.mpr (by simpa using hdone), Bool.true_and]
      cases fallbackEligible err provReq with
      | none =>
        rw [Bool.false_and]
        refine (isPending_writeProviderFailure h hclaim r err).trans ?_
        rw [not_canceled_of_or hcanceled, Bool.false_and]
      | some reason =>
        exact isPending_fallback h env hclaim r parsed hstream provReq err reason (not_canceled_of_or hcanceled)

theorem isPending_completeAndRespond (prov : Text) (provReq : ProviderRequest) :
    ((completeAndRespond h env r parsed prov (some c) provReq).run s).2.isPending id errorBody claim =
      (endsCanceled h env r parsed prov provReq s && s.isPending id errorBody claim) := by
  have hquiet := (quiet_complete env prov provReq).isPending id errorBody claim s
  rw [completeAndRespond, run_bind, endsCanceled]
  rcases hrun : (complete env prov provReq).run s with ⟨res, s'⟩
  rw [hrun] at hquiet
  rw [← hquiet]
  cases res with
  | error err => exact isPending_handlePrimaryCompleteError h env hclaim r parsed hstream provReq err
  | ok resp => exact isPending_finishProviderResponse h env hclaim r parsed hstream prov resp _

end

end

theorem quiet_admission (r : Context) (parsed : ChatCompletionRequest) (prov : Text) :
    Quiet (admission h env r parsed prov) := by
  refine .bind (.ask _) fun _ => .ite (.pure _) (.bind (.ask _) fun _ => ?_)
  refine .bind (quiet_applyCredentialOverride h env _ _ _) fun provReq => ?_
  cases provReq with
  | none => exact .pure _
  | some provReq =>
    refine .bind (quiet_claimBudgetAdmission h _ _) fun res => ?_
    split <;> exact .pure _

theorem dispatchProviderCompletion_eq (r : Context) (parsed : ChatCompletionRequest) (prov : Text)
    (claim : Option IdempotencyClaim) :
    dispatchProviderCompletion h env r parsed prov claim = (do
      match ← admission h env r parsed prov with
      | none => abandonIdempotency claim
      | some (r', provReq) => completeAndRespond h env r' parsed prov claim provReq) := by
  rw [dispatchProviderCompletion, admission, bind_assoc]
  refine bind_congr fun ctxErr => ?_
  by_cases hcanceled : (ctxErr == some .canceled) = true
  · rw [if_pos hcanceled, if_pos hcanceled, pure_bind]
    rfl
  · rw [if_neg hcanceled, if_neg hcanceled, bind_assoc]
    refine bind_congr fun messages => ?_
    rw [bind_assoc]
    refine bind_congr fun provReq => ?_
    cases provReq with
    | none => rfl
    | some provReq =>
      rw [bind_assoc]
      refine bind_congr fun res => ?_
      rcases res with ⟨r', _ | _⟩ <;> rfl

theorem isPending_dispatchProviderCompletion (hclaim : id.serves claim = true) (r : Context)
    (parsed : ChatCompletionRequest) (hstream : parsed.stream = false) (prov : Text) :
    ((dispatchProviderCompletion h env r parsed prov (some c)).run State.start.asked).2.isPending id errorBody claim =
      canceledInFlight h env r parsed prov := by
  have hquiet := (quiet_admission h env r parsed prov).isPending id errorBody claim State.start.asked
  rw [dispatchProviderCompletion_eq, run_bind, canceledInFlight]
  rcases hrun : (admission h env r parsed prov).run State.start.asked with ⟨res, s'⟩
  rw [hrun] at hquiet
  have hpending : s'.isPending id errorBody claim = true := hquiet
  cases res with
  | none => exact isPending_abandonIdempotency hclaim
  | some p =>
    refine (isPending_completeAndRespond h env hclaim p.1 parsed hstream prov p.2).trans ?_
    rw [hpending, Bool.and_true]

/-! ## The key's answers play no part behind the claim -/

theorem walkFallbackChain_withKey (resolution : Resolution) (args : WalkFallbackArgs)
    (forOrg : Nat → Uuid → Text → Except RouteError Text) (r : Context) (chain : List Text) :
    walkFallbackChain h (env.withKey resolution) args forOrg r chain = walkFallbackChain h env args forOrg r chain := by
  induction chain generalizing r with
  | nil => rfl
  | cons hopModel chain ih =>
    simp only [walkFallbackChain, ih]
    rfl

theorem canceledInFlight_withKey (resolution : Resolution) (r : Context) (parsed : ChatCompletionRequest)
    (prov : Text) :
    canceledInFlight h (env.withKey resolution) r parsed prov = canceledInFlight h env r parsed prov := by
  have htry : ∀ r parsed provReq reason, tryFallbackComplete h (env.withKey resolution) r parsed provReq reason =
      tryFallbackComplete h env r parsed provReq reason := by
    intro r parsed provReq reason
    simp only [tryFallbackComplete, walkFallbackChain_withKey]
  simp only [canceledInFlight, endsCanceled, failsCanceled, htry]
  rfl

end

end IbexHarness.Chat
