import IbexHarness.Chat.Provider
import IbexHarness.Lib.Slot
import Mathlib

/-! `Holds c s`: every reservation on the heap is settled, except perhaps the one `c` points to. -/

namespace IbexHarness.Chat

section

open Lib Budget Std.Do Option

set_option mvcgen.warning false

def outstanding (c : Option Nat) (heap : List BudgetReservation) : Option Reservation :=
  ((c.bind (heap[·]?)).filter fun res => !res.settled).map (·.claim)

theorem outstanding_eq_none {c : Option Nat} {heap : List BudgetReservation}
    (h : ∀ p res, c = some p → heap[p]? = some res → res.settled = true) : outstanding c heap = none := by
  cases c with
  | none => rfl
  | some p =>
    cases hp : heap[p]? with
    | none => simp [outstanding, hp]
    | some res => simp [outstanding, hp, h p res rfl hp]

abbrev lookup (c : Option Nat) (heap : List BudgetReservation) : Option (Nat × BudgetReservation) :=
  c.bind fun ptr => heap[ptr]?.map (ptr, ·)

theorem lookup_eq_some {c : Option Nat} {heap : List BudgetReservation} {ptr : Nat} {res : BudgetReservation} :
    lookup c heap = some (ptr, res) ↔ c = some ptr ∧ heap[ptr]? = some res := by
  simp [lookup, bind_eq_some_iff]

structure Holds (c : Option Nat) (s : State) : Prop where
  settled : ∀ p res, s.heap[p]? = some res → c ≠ some p → res.settled = true
  slot : Slot.run Event.owned? Event.settled? none s.trace = some (outstanding c s.heap)

namespace Holds

variable {c c' : Option Nat} {s : State} {ptr : Nat} {res : BudgetReservation} {e : Event}

theorem start (c : Option Nat) : Holds c State.start where
  settled p res hp := by simp [State.start] at hp
  slot := by cases c <;> rfl

theorem tick (hs : Holds c s) (n : Nat) : Holds c { s with tick := n } := ⟨hs.settled, hs.slot⟩

theorem emit (hs : Holds c s) (ho : e.owned? = none) (he : e.settled? = none) :
    Holds c { s with trace := s.trace ++ [e] } :=
  ⟨hs.settled, Slot.run_concat_neutral hs.slot ho he⟩

theorem none_of_lookup (hs : Holds c s) (h : ∀ p res, lookup c s.heap = some (p, res) → res.settled = true) :
    Holds none s where
  settled p res hp _ := by
    by_cases hc : c = some p
    · exact h p res (lookup_eq_some.2 ⟨hc, hp⟩)
    · exact hs.settled p res hp hc
  slot := by
    rw [hs.slot, outstanding_eq_none fun p res hc hp => h p res (lookup_eq_some.2 ⟨hc, hp⟩)]
    rfl

theorem of_none (hs : Holds none s) : Holds c s where
  settled p res hp _ := hs.settled p res hp nofun
  slot := by
    rw [outstanding_eq_none fun p res _ hp => hs.settled p res hp nofun]
    exact hs.slot

theorem settle (hs : Holds c s) (hl : lookup c s.heap = some (ptr, res)) (hres : ¬ res.settled = true)
    (ho : e.owned? = none) (he : e.settled? = some res.claim) :
    Holds none { s with
      heap := s.heap.modify ptr fun r => { r with settled := true }, trace := s.trace ++ [e] } := by
  obtain ⟨rfl, hp⟩ := lookup_eq_some.1 hl
  refine ⟨fun p r hr _ => ?_, Slot.run_concat_settle (by simp [hs.slot, outstanding, hp, hres]) ho he⟩
  rw [List.getElem?_modify] at hr
  by_cases hpp : ptr = p
  · subst hpp
    simp only [hp, if_true, map_eq_map, map_some, some.injEq] at hr
    rw [← hr]
  · simp only [hpp, if_false, id_map'] at hr
    exact hs.settled p r hr (by simpa using hpp)

end Holds

/-- Every reservation of the heap is settled and the ledger has granted `o`. -/
structure Granted (o : Option Reservation) (s : State) : Prop where
  settled : ∀ (p : Nat) (res : BudgetReservation), s.heap[p]? = some res → res.settled = true
  slot : Slot.run Event.owned? Event.settled? none s.trace = some o

namespace Granted

variable {o : Option Reservation} {s : State} {res : BudgetReservation}

theorem holds (hs : Granted none s) (c : Option Nat) : Holds c s :=
  Holds.of_none ⟨fun p res hp _ => hs.settled p res hp, hs.slot⟩

theorem emit (hs : Granted o s) {e : Event} (ho : e.owned? = none) (he : e.settled? = none) :
    Granted o { s with trace := s.trace ++ [e] } :=
  ⟨hs.settled, Slot.run_concat_neutral hs.slot ho he⟩

theorem alloc (hs : Granted (some res.claim) s) (hres : res.settled = false) :
    Holds (some s.heap.length) { s with heap := s.heap ++ [res] } where
  settled p r hr hne := by
    rw [List.getElem?_append] at hr
    split at hr
    · exact hs.settled p r hr
    · have hp : p = s.heap.length := by
        have := (List.getElem?_eq_some_iff.1 hr).1
        simp only [List.length_singleton] at this
        omega
      exact absurd (congrArg some hp.symm) hne
  slot := by simp [hs.slot, outstanding, hres]

end Granted

variable (h : ChatCompletionHandler) (env : Env)

@[spec]
theorem releaseBudget_spec (ctx : Context) (reason : String) :
    ⦃fun s => ⌜Holds ctx.budgetReservation s⌝⦄ releaseBudget ctx reason ⦃⇓ _ s => ⌜Holds none s⌝⦄ := by
  mvcgen [releaseBudget, budgetReservationFromContext, markSettled, releaseReservation, emit]
  case vc1.h_1 s hs hl => exact hs.none_of_lookup (by simp [lookup, hl])
  case vc2.h_2.isTrue s hs ptr res hl hset => exact hs.none_of_lookup (by simp [lookup, hl, hset])
  case vc3.h_2.isFalse s hs ptr res hl hset _ _ => exact hs.settle hl hset rfl rfl

@[spec]
theorem settleBudgetOutcome_spec (ctx : Context) (i : BudgetSettlement) :
    ⦃fun s => ⌜Holds ctx.budgetReservation s⌝⦄ settleBudgetOutcome h ctx i ⦃⇓ _ s => ⌜Holds none s⌝⦄ := by
  mvcgen [settleBudgetOutcome, budgetReservationFromContext, markSettled, releaseReservation, emit]
  case vc1.h_1 s hs hl => exact hs.none_of_lookup (by simp [lookup, hl])
  case vc2.h_2.isTrue s hs ptr res hl hset => exact hs.none_of_lookup (by simp [lookup, hl, hset])
  case vc3.h_2.isFalse.isTrue s hs ptr res hl hset _ _ _ => exact hs.settle hl hset rfl rfl
  case vc4.h_2.isFalse.isFalse s hs ptr res hl hset _ _ _ => exact hs.settle hl hset rfl rfl

@[spec]
theorem claimHoldTimed_spec (claim : Nat → Principal → ClaimRequest → Option Go.ClaimOutcome) (p : Principal)
    (req : ClaimRequest) :
    ⦃fun s => ⌜Holds none s⌝⦄ claimHoldTimed claim p req
    ⦃⇓ out s => ⌜Granted (out.bind Go.ClaimOutcome.token?) s⌝⦄ := by
  mvcgen [claimHoldTimed, ask, emit]
  case vc1 s hs t _ =>
    refine ⟨fun p res hp => hs.settled p res hp nofun, ?_⟩
    cases hout : (claim s.tick p req).bind Go.ClaimOutcome.token? with
    | none => exact Slot.run_concat_neutral hs.slot hout rfl
    | some c => exact Slot.run_concat_grant hs.slot hout rfl

/-- The hold a claim or a re-claim leaves: the context's own, or none on a refusal. -/
def AfterClaim (res : Context × Bool) (s : State) : Prop :=
  Holds (if res.2 then res.1.budgetReservation else none) s

@[spec]
theorem applyBudgetClaim_spec (r : Context) (out : Go.ClaimOutcome) (estimate : Int) (snap : BudgetSnapshot) :
    ⦃fun s => ⌜Granted out.token? s⌝⦄ applyBudgetClaim r out estimate snap ⦃⇓ res s => ⌜AfterClaim res s⌝⦄ := by
  mvcgen [applyBudgetClaim, newReservation, writeBudgetExceeded, writeBudgetAdmissionUnavailable, emit]
  case vc1.h_1 c _ s hs _ =>
    have hs : Granted (some c) s := hs
    exact hs.alloc rfl
  case vc2.h_2 hs => exact hs.holds _
  case vc3.h_3 hs _ => exact (hs.emit rfl rfl).holds _
  case vc4.h_4 hs _ => exact (hs.emit rfl rfl).holds _
  case vc5.h_5 hs _ => exact (hs.emit rfl rfl).holds _

@[spec]
theorem claimAndApply_spec (claim : Nat → Principal → ClaimRequest → Option Go.ClaimOutcome) (r : Context)
    (p : Principal) (key : Text) (estimate : Int) (snap : BudgetSnapshot) :
    ⦃fun s => ⌜Holds none s⌝⦄ claimAndApply h claim r p key estimate snap ⦃⇓ res s => ⌜AfterClaim res s⌝⦄ := by
  mvcgen [claimAndApply, writeBudgetAdmissionUnavailable, emit]
  case vc2.post.success.h_1 hs _ => exact (hs.emit rfl rfl).holds _

@[spec]
theorem claimBudgetAdmission_spec (r : Context) (i : AdmissionInput) :
    ⦃fun s => ⌜Holds none s⌝⦄ claimBudgetAdmission h r i ⦃⇓ res s => ⌜AfterClaim res s⌝⦄ := by
  mvcgen [claimBudgetAdmission, writeBudgetAdmissionUnavailable, ask, emit]
  case vc1.h_1.h_1 hs _ => exact (hs.emit rfl rfl).of_none
  case vc2.h_1.h_2.h_1 hs _ _ _ => exact ((hs.tick _).emit rfl rfl).of_none
  case vc3.h_1.h_2.h_2.isTrue hs _ _ _ _ => exact (hs.tick _).of_none
  case vc4.h_1.h_2.h_2.isFalse.h_1 hs _ _ _ _ _ _ => exact ((hs.tick _).emit rfl rfl).of_none
  case vc5.h_1.h_2.h_2.isFalse.h_2 hs _ _ _ _ _ _ => exact hs.tick _
  case vc6.h_2 hs => exact hs.of_none

theorem reclaim_spec (claim : Nat → Principal → ClaimRequest → Option Go.ClaimOutcome) (r : Context)
    (p : Principal) (key : Text) (estimate : Int) (card : Billing.CardVersion) :
    ⦃fun s => ⌜Holds none s⌝⦄ reclaim h claim r p key estimate card ⦃⇓ res s => ⌜AfterClaim res s⌝⦄ := by
  mvcgen [reclaim, newReservation]
  case vc2.post.success.h_1 c _ s hs _ =>
    have hs : Granted (some c) s := hs
    exact hs.alloc rfl
  case vc3.post.success.h_2 out hout _ s hs =>
    have hnone : out.bind Go.ClaimOutcome.token? = none := by
      rcases out with - | (c | _ | _ | _ | _) <;> first | rfl | exact (hout c rfl).elim
    rw [hnone] at hs
    exact hs.holds _

theorem rebudgetForFallback_spec (c₀ : Option Nat) (r : Context) (i : AdmissionInput) :
    ⦃fun s => ⌜Holds c₀ s ∧ Holds r.budgetReservation s⌝⦄ rebudgetForFallback h r i
    ⦃⇓ res s => ⌜if res.2 then Holds res.1.budgetReservation s else Holds c₀ s ∧ Holds r.budgetReservation s⌝⦄ := by
  mvcgen [rebudgetForFallback, budgetReservationFromContext, reclaim_spec]
  case vc3.h_1.h_2.h_2.pre s hs _ _ _ _ _ _ _ _ _ _ => exact hs.2
  case vc5.h_1.h_2.h_2.post.success.post.success res s =>
    intro hs
    rcases res with ⟨r', _ | _⟩
    · exact ⟨hs.of_none, hs.of_none⟩
    · exact hs
  case vc6.h_2 s hs _ _ _ _ _ => exact hs.2

end

/-! Every exit of the handler settles the hold of the context it has at that point. -/

section

open Lib Std.Do

set_option mvcgen.warning false

variable (h : ChatCompletionHandler) (env : Env)

def AfterHop : HopResult → State → Prop
  | .hopOK hop, s => Holds hop.r.budgetReservation s
  | _, s => Holds none s

theorem classifyFallbackHopErr_spec (err : Err) (hopReq : ProviderRequest) :
    ⦃fun s => ⌜Holds none s⌝⦄ classifyFallbackHopErr env err hopReq ⦃⇓ res s => ⌜AfterHop res s⌝⦄ := by
  mvcgen [classifyFallbackHopErr, ask]
  all_goals exact Holds.tick ‹_› _

theorem runFallbackHop_spec (args : WalkFallbackArgs) (r : Context) (hopProv hopModel : Text) :
    ⦃fun s => ⌜Holds r.budgetReservation s⌝⦄ runFallbackHop env args r hopProv hopModel
    ⦃⇓ res s => ⌜AfterHop res s⌝⦄ := by
  mvcgen [runFallbackHop, complete, ask, emit, classifyFallbackHopErr_spec]
  all_goals exact (Holds.emit ‹_› rfl rfl).tick _

section

variable (c₀ : Option Nat) (args : WalkFallbackArgs) (forOrg : Nat → Uuid → Text → Except RouteError Text) (r : Context)

theorem tryFallbackHop_spec (hopModel : Text) :
    ⦃fun s => ⌜Holds c₀ s ∧ Holds r.budgetReservation s⌝⦄ tryFallbackHop h env args forOrg r hopModel
    ⦃⇓ res s => ⌜match res.1 with
      | .hopOK hop => Holds hop.r.budgetReservation s
      | _ => Holds c₀ s ∧ Holds res.2.budgetReservation s⌝⦄ := by
  have hrebudget := rebudgetForFallback_spec h c₀
  mvcgen [tryFallbackHop, ask, hrebudget, runFallbackHop_spec]
  case vc1.h_1 s hs _ e _ =>
    have hs' := And.intro (hs.1.tick (s.tick + 1)) (hs.2.tick (s.tick + 1))
    cases he : skipFallbackForOrgErr e <;> exact hs'
  case vc2.h_2.pre s hs _ _ _ _ => exact ⟨hs.1.tick _, hs.2.tick _⟩
  case vc3.h_2.post.success.isTrue res hres s hs =>
    rwa [if_neg (by simpa using hres)] at hs
  case vc4.h_2.post.success.isFalse.pre res hres s hs =>
    rwa [if_pos (by simpa using hres)] at hs
  case vc5.h_2.post.success.isFalse.post.success hop s hs =>
    cases hop with
    | hopOK hop => exact hs
    | hopContinue | hopAbort => exact ⟨hs.of_none, hs.of_none⟩

theorem walkFallbackChain_spec (chain : List Text) :
    ⦃fun s => ⌜Holds c₀ s ∧ Holds r.budgetReservation s⌝⦄ walkFallbackChain h env args forOrg r chain
    ⦃⇓ res s => ⌜Holds (res.elim c₀ (·.r.budgetReservation)) s⌝⦄ := by
  induction chain generalizing r with
  | nil =>
    mvcgen [walkFallbackChain]
    case vc1.nil s hs => exact hs.1
  | cons hopModel chain ih =>
    have hhop := tryFallbackHop_spec h env c₀
    mvcgen [walkFallbackChain, ask, hhop, ih]
    case vc1.cons.isTrue s hs _ _ => exact hs.1.tick _
    case vc2.cons.isFalse.pre s hs _ _ => exact ⟨hs.1.tick _, hs.2.tick _⟩
    case vc4.cons.isFalse.post.success.h_2 s hs => exact hs.1

end

theorem tryFallbackComplete_spec (r : Context) (parsed : ChatCompletionRequest) (primaryReq : ProviderRequest)
    (reason : FallbackReason) :
    ⦃fun s => ⌜Holds r.budgetReservation s⌝⦄ tryFallbackComplete h env r parsed primaryReq reason
    ⦃⇓ res s => ⌜Holds (res.elim r.budgetReservation (·.r.budgetReservation)) s⌝⦄ := by
  have hwalk := walkFallbackChain_spec h env r.budgetReservation
  mvcgen [tryFallbackComplete, ask, hwalk]
  case vc1.h_1.h_1 s hs _ _ => exact hs.tick _
  case vc2.h_1.h_2 s hs _ _ _ => exact ⟨hs.tick _, hs.tick _⟩

variable (r : Context) (parsed : ChatCompletionRequest) (prov : Text) (claim : Option IdempotencyClaim)

@[spec]
theorem writeProviderFailure_spec (err : Err) :
    ⦃fun s => ⌜Holds r.budgetReservation s⌝⦄ writeProviderFailure h r err claim ⦃⇓ _ s => ⌜Holds none s⌝⦄ := by
  mvcgen [writeProviderFailure, finishIdempotency, emit]
  case vc3.post.success.h_2 s hs _ _ => exact (hs.emit rfl rfl).emit rfl rfl

@[spec]
theorem writeJSONSuccess_spec (providerName : Text) (resp : Response) (audit : FallbackAudit) (out : Text) :
    ⦃fun s => ⌜Holds r.budgetReservation s⌝⦄ writeJSONSuccess h r parsed providerName resp claim audit out
    ⦃⇓ _ s => ⌜Holds none s⌝⦄ := by
  mvcgen [writeJSONSuccess, finishIdempotency, emit]
  case vc1 s hs _ _ => exact (hs.emit rfl rfl).emit rfl rfl

@[spec]
theorem writeProviderSuccess_spec (providerName : Text) (resp : Response) (audit : FallbackAudit) :
    ⦃fun s => ⌜Holds r.budgetReservation s⌝⦄ writeProviderSuccess h env r parsed providerName resp claim audit
    ⦃⇓ _ s => ⌜Holds none s⌝⦄ := by
  mvcgen [writeProviderSuccess, ask]
  all_goals first | exact Holds.tick ‹_› _ | exact (Holds.tick ‹_› _).tick _

@[spec]
theorem finishProviderResponse_spec
    (resp : Response) (audit : FallbackAudit) (hflush : parsed.stream = true → env.flusher = true) :
    ⦃fun s => ⌜Holds r.budgetReservation s⌝⦄ finishProviderResponse h env r parsed claim prov resp audit
    ⦃⇓ _ s => ⌜Holds none s⌝⦄ := by
  mvcgen [finishProviderResponse, forwardSSEStream, streamCheckpointHook, ask, emit]
  case vc1.isTrue.isTrue hstream hno _ _ _ => simp [hflush hstream] at hno
  case vc2.isTrue.isFalse s hs _ _ => exact (hs.emit rfl rfl).tick _

theorem exitPrimaryCompleteError_spec (err : Err) :
    ⦃fun s => ⌜Holds r.budgetReservation s⌝⦄ exitPrimaryCompleteError h env r claim err
    ⦃⇓ stop s => ⌜Holds (if stop then none else r.budgetReservation) s⌝⦄ := by
  mvcgen [exitPrimaryCompleteError, ask]
  all_goals first | exact Holds.tick ‹_› _ | exact (Holds.tick ‹_› _).tick _

theorem handlePrimaryCompleteError_spec (provReq : ProviderRequest) (err : Err)
    (hflush : parsed.stream = true → env.flusher = true) :
    ⦃fun s => ⌜Holds r.budgetReservation s⌝⦄ handlePrimaryCompleteError h env r parsed claim provReq err
    ⦃⇓ _ s => ⌜Holds none s⌝⦄ := by
  mvcgen [handlePrimaryCompleteError, exitPrimaryCompleteError_spec, tryFallbackComplete_spec, ask]
  case vc2.post.success.isTrue stop hstop s hs => rwa [if_pos hstop] at hs
  case vc3.post.success.isFalse.h_1 stop hstop _ s hs => rwa [if_neg hstop] at hs
  case vc4.post.success.isFalse.h_2.pre stop hstop _ _ s hs => rwa [if_neg hstop] at hs
  case vc5.post.success.isFalse.h_2.post.success.h_1.isTrue s hs _ _ => exact hs.tick _
  case vc6.post.success.isFalse.h_2.post.success.h_1.isFalse s hs _ _ => exact hs.tick _
  case vc8 => exact fun _ _ => hflush

theorem completeAndRespond_spec (provReq : ProviderRequest) (hflush : parsed.stream = true → env.flusher = true) :
    ⦃fun s => ⌜Holds r.budgetReservation s⌝⦄ completeAndRespond h env r parsed prov claim provReq
    ⦃⇓ _ s => ⌜Holds none s⌝⦄ := by
  mvcgen [completeAndRespond, complete, handlePrimaryCompleteError_spec, ask, emit]
  all_goals first | exact hflush | exact (Holds.emit ‹_› rfl rfl).tick _

theorem applyCredentialOverride_spec (provReq : ProviderRequest) :
    ⦃fun s => ⌜Holds none s⌝⦄ applyCredentialOverride h env r prov provReq ⦃⇓ _ s => ⌜Holds none s⌝⦄ := by
  mvcgen [applyCredentialOverride, writeCredentialResolveFailure, ask, emit]
  case vc3.h_2.isFalse.h_1 hs _ => exact hs.emit rfl rfl
  case vc4.h_2.isFalse.h_2.h_1 hs _ _ _ => exact hs.tick _
  case vc5.h_2.isFalse.h_2.h_2 hs _ _ _ => exact (hs.tick _).emit rfl rfl

theorem dispatchProviderCompletion_spec (hflush : parsed.stream = true → env.flusher = true) :
    ⦃fun s => ⌜Holds none s⌝⦄ dispatchProviderCompletion h env r parsed prov claim ⦃⇓ _ s => ⌜Holds none s⌝⦄ := by
  mvcgen [dispatchProviderCompletion, abandonIdempotency, applyCredentialOverride_spec, completeAndRespond_spec, ask,
    emit]
  case vc1.isTrue hs _ _ _ => exact (hs.tick _).emit rfl rfl
  case vc2.isFalse.pre hs _ _ _ => exact (hs.tick _).tick _
  case vc3.isFalse.post.success.h_1 hs _ => exact hs.emit rfl rfl
  case vc5.isFalse.post.success.h_2.post.success.h_1 hs _ => exact Holds.emit hs rfl rfl
  case vc7 => exact fun _ _ => hflush

theorem forwardChatCompletion_spec (hflush : parsed.stream = true → env.flusher = true) :
    ⦃fun s => ⌜Holds none s⌝⦄ forwardChatCompletion h env r parsed prov ⦃⇓ _ s => ⌜Holds none s⌝⦄ := by
  mvcgen [forwardChatCompletion, dispatchProviderCompletion_spec, ask, emit]
  case vc1.h_1 hs _ _ => exact hs.tick _
  case vc2.h_2.isTrue hs _ _ _ _ _ => exact (hs.tick _).emit rfl rfl
  case vc4.h_2.isFalse hs _ _ _ _ => exact hs.tick _

end

/-! What holds of every run of `forwardChatCompletion`, whatever the providers, the ledger and the client do. -/

open Lib Budget Std.Do

def events (h : ChatCompletionHandler) (env : Env) (r : Context) (parsed : ChatCompletionRequest) (prov : Text) :
    List Event :=
  ((forwardChatCompletion h env r parsed prov).run State.start).2.trace

/-- When the handler returns, the reservations it was granted are those it passed to `Finalize` or `Release`, each
once and in the order of the grants. At every moment before that at most one was still to be settled. -/
theorem holds_settled_once (h : ChatCompletionHandler) (env : Env) (r : Context) (parsed : ChatCompletionRequest)
    (prov : Text) (hflush : parsed.stream = true → env.flusher = true) :
    (events h env r parsed prov).filterMap Event.settled? = (events h env r parsed prov).filterMap Event.owned? ∧
      ∀ t, t <+: events h env r parsed prov →
        ∃ o : Option Reservation, t.filterMap Event.owned? = t.filterMap Event.settled? ++ o.toList := by
  have hend : Holds none ((forwardChatCompletion h env r parsed prov).run State.start).2 :=
    forwardChatCompletion_spec h env r parsed prov hflush State.start (Holds.start none)
  refine ⟨?_, fun t ht => Slot.exists_held_of_isPrefix hend.slot ht⟩
  have hall := Slot.granted_eq_settled_append hend.slot
  rw [show outstanding none _ = none from rfl, Option.toList_none, List.append_nil] at hall
  exact hall.symm

section Example

def sampleCard : Billing.CardVersion := ⟨['v'], [⟨['p'], ['*'], 1000, 1000⟩]⟩

/-- The ledger grants every claim, with the tick as the version. -/
def sampleHandler : ChatCompletionHandler where
  budgetLedger := some fun t p req => some (.owned ⟨7, p, req.key, req.requestHash, 3, t⟩)
  budgetCache := some fun _ _ => some ⟨true, sampleCard⟩
  policyFallback := some fun _ _ _ => some [['a'], ['b']]
  modelRouter := some fun _ _ _ => .ok ['p']
  credentialResolver := none
  maxFallbackDepth := 2
  globs := ⟨id, fun _ _ => some true⟩
  hashRequest := id
  sanitizeProviderDetail := fun _ => ""
  usageFromJSON := fun _ => none

/-- The primary provider and the first hop time out, the second hop streams. -/
def sampleEnv : Env where
  ctxErr := fun _ => none
  bearer := none
  resolveIdempotency := fun _ => some none
  applyInjection := fun _ _ messages => messages
  complete := fun _ _ req => if req.model = ['b'] then .ok ⟨200, none⟩ else .error ⟨false, false, true, none⟩
  readAllBody := fun _ => .ok []
  processResponseBody := fun _ body => .ok body
  streamCopy := fun _ => ⟨[], some ⟨5, 5⟩, true⟩
  flusher := true

def sampleContext : Context := ⟨['r'], some 2, some 1, none⟩
def sampleRequest : ChatCompletionRequest := ⟨['m'], [⟨['u'], ['h', 'i']⟩], true, none⟩

theorem holds_settled_once_sample :
    ((events sampleHandler sampleEnv sampleContext sampleRequest ['p']).filterMap Event.owned?).length = 3 ∧
      (events sampleHandler sampleEnv sampleContext sampleRequest ['p']).filterMap Event.settled? =
        (events sampleHandler sampleEnv sampleContext sampleRequest ['p']).filterMap Event.owned? :=
  ⟨by decide +kernel, (holds_settled_once sampleHandler sampleEnv sampleContext sampleRequest ['p'] fun _ => rfl).1⟩

end Example

end IbexHarness.Chat
