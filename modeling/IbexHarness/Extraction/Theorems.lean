import IbexHarness.Extraction.Lemmas.Pointer
import IbexHarness.Extraction.Run
import Mathlib

/-! `Books granted settled raised s`: the holds granted and settled, and the exceptions, of a trace. -/

namespace IbexHarness.Extraction

section

open Lib Budget Std.Do

set_option mvcgen.warning false

variable {μ : Type}

structure Books (granted settled : List Reservation) (raised : List Raised) (s : AttemptState μ) : Prop where
  granted : s.trace.filterMap Event.granted? = granted
  settled : s.trace.filterMap Event.settled? = settled
  raised : s.trace.filterMap Event.raised? = raised

namespace Books

variable {g u : List Reservation} {x : List Raised} {s : AttemptState μ}

theorem start (tick : Nat) : Books [] [] [] (⟨tick, []⟩ : AttemptState μ) := ⟨rfl, rfl, rfl⟩

theorem emit (hs : Books g u x s) (e : Event μ) (n : Nat) :
    Books (g ++ e.granted?.toList) (u ++ e.settled?.toList) (x ++ e.raised?.toList) ⟨n, s.trace ++ [e]⟩ where
  granted := by simp [hs.granted, List.filterMap_cons]; cases e.granted? <;> rfl
  settled := by simp [hs.settled, List.filterMap_cons]; cases e.settled? <;> rfl
  raised := by simp [hs.raised, List.filterMap_cons]; cases e.raised? <;> rfl

theorem quiet {e : Event μ} (hs : Books g u x s) (hg : e.granted? = none) (hu : e.settled? = none)
    (hx : e.raised? = none) (n : Nat) : Books g u x ⟨n, s.trace ++ [e]⟩ := by
  simpa [hg, hu, hx] using hs.emit e n

theorem tick (hs : Books g u x s) (n : Nat) : Books g u x ⟨n, s.trace⟩ := { hs with }

end Books

variable (job : BatchJob μ)

structure BatchJob.LedgerSettles : Prop where
  finalize : ∀ ledger ∈ job.budgetLedger, ∀ t c i o, (ledger.finalize t c i o).isOk = true
  release : ∀ ledger ∈ job.budgetLedger, ∀ t c, (ledger.release t c).isOk = true

/-- How an attempt ends: its hold is settled, or it was granted one and the provider call raised an exception that
is not a transport error. -/
inductive Ended (s : AttemptState μ) : Prop where
  | settled (c : Option Reservation) (x : List Raised) (h : Books c.toList c.toList x s)
      (hx : ∀ e ∈ x, e.isTransport = true ∨ c = none)
  | lost (c : Reservation) (e : Raised) (h : Books [c] [] [e] s) (he : e.isTransport = false)

variable {s : AttemptState μ} {e : Event μ} {c : Reservation}

namespace Ended

theorem quiet (hs : Ended s) (hg : e.granted? = none) (hu : e.settled? = none)
    (hx : e.raised? = none) (n : Nat) : Ended ⟨n, s.trace ++ [e]⟩ := by
  cases hs with
  | settled c x h htr => exact .settled c x (h.quiet hg hu hx n) htr
  | lost c e' h he => exact .lost c e' (h.quiet hg hu hx n) he

theorem of_none {x : List Raised} (hs : Books [] [] x s) : Ended s :=
  .settled none x hs fun _ _ => .inr rfl

end Ended

variable {job}

/-! ## Before the hold -/

theorem filterPending_spec : ⦃fun s => ⌜Books [] [] [] s⌝⦄ filterPending job
    ⦃post⟨fun _ s => ⌜Books [] [] [] s⌝, fun _ s => ⌜Ended s⌝⟩⦄ := by
  mvcgen [filterPending, ask, orRaise]
  case vc5.h_2 => exact .of_none (Books.tick ‹_› _)
  all_goals exact Books.tick ‹_› _

theorem admitBudget_spec (pending : List Turn) (userContent : Text) :
    ⦃fun s => ⌜Books [] [] [] s⌝⦄ admitBudget job pending userContent
    ⦃post⟨fun c s => ⌜Books c.toList [] [] s ∧ (job.budgetLedger = none → c = none)⌝, fun _ s => ⌜Ended s⌝⟩⦄ := by
  mvcgen [admitBudget, ask, emit, orRaise]
  case vc1.h_1 hs => exact ⟨hs, fun _ => trivial⟩
  case vc2.h_2.h_1 ledger hl req s hs c hout =>
    cases hclaim : ledger.claim s.tick req with
    | error e => simp [hclaim, Except.mapError] at hout
    | ok c' =>
      cases (Except.ok.inj (hclaim ▸ hout) : c' = c)
      exact ⟨hs.emit (.claim req (.ok c)) _, by simp [hl]⟩
  case vc3.h_2.h_2 ledger _ req s hs e hout =>
    cases hclaim : ledger.claim s.tick req with
    | error e' => exact .of_none (hs.quiet rfl rfl rfl _)
    | ok c' => simp [hclaim, Except.mapError] at hout

theorem extract_spec (g : List Reservation) (userContent : Text) :
    ⦃fun s => ⌜Books g [] [] s⌝⦄ extract job userContent
    ⦃post⟨fun _ s => ⌜Books g [] [] s⌝, fun e s => ⌜Books g [] [e] s⌝⟩⦄ := by
  mvcgen [extract, ask, emit, orRaise]
  case vc1.h_1 s hs call hout =>
    rw [hout]
    exact hs.quiet rfl rfl rfl _
  case vc2.h_2 s hs e hout =>
    rw [hout]
    simpa [Event.granted?, Event.settled?, Event.raised?] using hs.emit (.extract userContent (.error e)) (s.tick + 1)

theorem settled?_finalize {i o : Int} {out : Except Py.LedgerError Completeness}
    (h : out.isOk = true) : (Event.finalize c i o out : Event μ).settled? = some c := by
  cases out with
  | error e => simp [Except.isOk, Except.toBool] at h
  | ok m => rfl

theorem settled?_release {out : Except Py.LedgerError Unit} (h : out.isOk = true) :
    (Event.release c out : Event μ).settled? = some c := by
  cases out with
  | error e => simp [Except.isOk, Except.toBool] at h
  | ok m => rfl

theorem Books.settle (hs : Books g [] x s) (hg : e.granted? = none)
    (hu : e.settled? = some c) (hx : e.raised? = none) (n : Nat) : Books g [c] x ⟨n, s.trace ++ [e]⟩ := by
  simpa [hg, hu, hx] using hs.emit e n

theorem eq_none_of_not_both {claim : Option Reservation} {ledger : Option BudgetLedger}
    (hc : ledger = none → claim = none)
    (h : ∀ c l, claim = some c → ledger = some l → False) : claim = none := by
  cases ledger with
  | none => exact hc rfl
  | some l =>
    cases claim with
    | none => rfl
    | some c => exact (h c l rfl rfl).elim

section

variable (h : job.LedgerSettles)
include h

theorem releaseBudget_spec (claim : Option Reservation) (x : List Raised)
    (hc : job.budgetLedger = none → claim = none) :
    ⦃fun s => ⌜Books claim.toList [] x s⌝⦄ releaseBudget job claim
    ⦃post⟨fun _ s => ⌜Books claim.toList claim.toList x s⌝, fun _ _ => ⌜False⌝⟩⦄ := by
  mvcgen [releaseBudget, ask, emit]
  case vc1.h_1 c ledger hl _ s hs =>
    exact hs.settle rfl (settled?_release (h.release ledger hl s.tick c)) rfl _
  case vc2.h_2 hno hl hclaim s hs =>
    subst hl hclaim
    rwa [eq_none_of_not_both hc hno] at hs ⊢

theorem settleBudget_spec (claim : Option Reservation) (call : ExtractionCall) :
    ⦃fun s => ⌜Books claim.toList [] [] s ∧ (job.budgetLedger = none → claim = none)⌝⦄ settleBudget job claim call
    ⦃post⟨fun _ s => ⌜Ended s⌝, fun _ _ => ⌜False⌝⟩⦄ := by
  mvcgen [settleBudget, ask, emit]
  case vc1.h_1 c ledger hl _ s hs =>
    exact .settled (some c) [] (hs.1.settle rfl (settled?_finalize (h.finalize ledger hl s.tick c _ _)) rfl _) (by simp)
  case vc2.h_2 hno hl hclaim s hs =>
    subst hl hclaim
    rw [eq_none_of_not_both hs.2 hno] at hs
    exact .of_none hs.1

theorem releaseOnTransportError_spec {claim : Option Reservation}
    (hc : job.budgetLedger = none → claim = none) (e : Raised) :
    ⦃fun s => ⌜Books claim.toList [] [e] s⌝⦄ (releaseOnTransportError job claim e : BatchM μ ExtractionCall)
    ⦃post⟨fun _ _ => ⌜False⌝, fun _ s => ⌜Ended s⌝⟩⦄ := by
  have hrelease := releaseBudget_spec h claim [e] hc
  mvcgen [releaseOnTransportError, hrelease]
  case vc2.isTrue.post.success htr _ _ _ s hs =>
    exact .settled claim [e] hs (by simpa using Or.inl htr)
  case vc3.isFalse htr s hs =>
    cases claim with
    | none => exact .of_none hs
    | some c => exact .lost c e hs (by simpa using htr)

theorem extractOrRelease_spec (claim : Option Reservation) (userContent : Text) :
    ⦃fun s => ⌜Books claim.toList [] [] s ∧ (job.budgetLedger = none → claim = none)⌝⦄
    extractOrRelease job claim userContent
    ⦃post⟨fun _ s => ⌜Books claim.toList [] [] s ∧ (job.budgetLedger = none → claim = none)⌝, fun _ s =>
      ⌜Ended s⌝⟩⦄ := by
  have hextract := @extract_spec μ job claim.toList userContent
  have hhandler := @releaseOnTransportError_spec μ job h claim
  mvcgen [extractOrRelease, hextract, hhandler]
  case vc1.pre hs => exact hs.1
  case vc2.post.success hs _ s => exact fun hs' => ⟨hs', hs.2⟩
  case vc4.post.except.handle.post.success => exact False.elim
  case vc5 hs e => exact fun _ _ => hs.2

end

theorem writeTurnMemories_spec (turnIndex revision ordinal : Nat) (memories : List μ) :
    ⦃fun s => ⌜Ended s⌝⦄ writeTurnMemories job turnIndex revision ordinal memories
    ⦃post⟨fun _ s => ⌜Ended s⌝, fun _ s => ⌜Ended s⌝⟩⦄ := by
  induction memories generalizing ordinal with
  | nil => mvcgen [writeTurnMemories]
  | cons memory rest ih =>
    mvcgen [writeTurnMemories, ask, emit, orRaise, ih]
    all_goals exact Ended.quiet ‹_› rfl rfl rfl _

theorem updatePointerAfterTurn_spec (turnIndex revision : Nat) :
    ⦃fun s => ⌜Ended s⌝⦄ updatePointerAfterTurn job turnIndex revision
    ⦃post⟨fun _ s => ⌜Ended s⌝, fun _ s => ⌜Ended s⌝⟩⦄ := by
  mvcgen [updatePointerAfterTurn, ask, emit, orRaise]
  all_goals exact Ended.quiet ‹_› rfl rfl rfl _

theorem writeMemoriesPerTurn_spec (revision : Nat) (batch : List (TurnExtraction μ)) :
    ⦃fun s => ⌜Ended s⌝⦄ writeMemoriesPerTurn job revision batch
    ⦃post⟨fun _ s => ⌜Ended s⌝, fun _ s => ⌜Ended s⌝⟩⦄ := by
  induction batch with
  | nil => mvcgen [writeMemoriesPerTurn]
  | cons turn rest ih => mvcgen [writeMemoriesPerTurn, writeTurnMemories_spec, updatePointerAfterTurn_spec, ih]

theorem persistParsed_spec (pending : List Turn) (call : ExtractionCall) (revision : Nat) :
    ⦃fun s => ⌜Ended s⌝⦄ persistParsed job pending call revision
    ⦃post⟨fun _ s => ⌜Ended s⌝, fun _ s => ⌜Ended s⌝⟩⦄ := by
  mvcgen [persistParsed, orRaise, writeMemoriesPerTurn_spec]

theorem persistOrLog_spec (pending : List Turn) (call : ExtractionCall) (revision : Nat) :
    ⦃fun s => ⌜Ended s⌝⦄ persistOrLog job pending call revision
    ⦃post⟨fun _ s => ⌜Ended s⌝, fun _ s => ⌜Ended s⌝⟩⦄ := by
  mvcgen [persistOrLog, persistParsed_spec, emit]
  case vc2.post.success => exact id
  case vc3.post.except.handle hs => exact hs.quiet rfl rfl rfl _

/-! ## The whole attempt -/

theorem runBatchExtraction_spec (h : job.LedgerSettles) : ⦃fun s => ⌜Books [] [] [] s⌝⦄ runBatchExtraction job
    ⦃post⟨fun _ s => ⌜Ended s⌝, fun _ s => ⌜Ended s⌝⟩⦄ := by
  have hextract := extractOrRelease_spec h
  have hsettle := settleBudget_spec h
  mvcgen [runBatchExtraction, filterPending_spec, admitBudget_spec, hextract, hsettle, persistOrLog_spec, emit]
  case vc2.post.success.h_1 hs => exact .of_none hs
  case vc3.post.success.h_2.isTrue hs => exact .of_none hs
  case vc8.post.success.h_2.isFalse.post.success.post.success.post.success.post.success hs =>
    exact hs.quiet rfl rfl rfl _

theorem holds_of_wp {α : Type} {P : AttemptState μ → Prop} {m : BatchM μ α}
    (h : ((wp m).apply post⟨fun _ s => ⌜P s⌝, fun _ s => ⌜P s⌝⟩ s).down) : P (m.run.run s).2 := by
  simp only [WP.wp, PredTrans.apply_pushExcept, PredTrans.apply_pushArg] at h
  rcases hm : m.run.run s with ⟨r, s'⟩
  rw [hm] at h
  cases r with
  | ok | error => exact h

theorem attempt_ended (h : job.LedgerSettles) (tick : Nat) : Ended (job.attempt tick).2 :=
  holds_of_wp (runBatchExtraction_spec h ⟨tick, []⟩ (Books.start tick))

end

/-! A pointer never skips a turn when jobs run in turn order, and the holds of a run are settled. -/

open Lib Budget Option

/-- Every turn of a finished job was in the user content of a completed provider call whose memories were written,
and the pointer never moves back. -/
theorem no_turn_skipped {μ : Type} {jobs : Jobs} {w w' : World μ}
    (hr : ((machine μ jobs).restrict (World.inOrder jobs)).Reachable w)
    (hl : ((machine μ jobs).restrict (World.inOrder jobs)).Later w w') :
    (∀ job ∈ w'.finished, ∀ t ∈ jobs.turns job, w'.hasExtracted t = true) ∧
      ∀ r r', w.row = some r → w'.row = some r' → r.lastExtractedTurn ≤ r'.lastExtractedTurn := by
  refine ⟨(inv_of_inOrder (hr.later hl)).finished, fun r r' hrow hrow' => ?_⟩
  obtain ⟨s, hs, hle⟩ := advanced_of_later hl.of_restrict r' hrow'
  obtain rfl : r = s := some.inj (hrow.symm.trans hs)
  exact hle

/-! ## Two runs -/

def sampleChat : Nat → Text × Text := fun _ => ("q".toList, "a".toList)

/-- One job for each chat turn, from chat turn `first` on. -/
def sampleJobs (first : Nat) : Jobs where
  chat := sampleChat
  turns j := turnsFromChat (first + j) "q".toList "a".toList
  from_chat j _ ht := ⟨first + j, ht⟩

/-- The attempt `a` for the job `j`, with one memory for each of these turns. -/
def sampleAttempt (a j : Nat) (indexes : List Nat) : List (Action Nat) :=
  [.begin a j, .advance a, .extracted a (some (indexes.map fun k => ⟨k, [k]⟩))] ++
    (indexes.map fun _ => [.advance a, .advance a, .advance a]).flatten

def orderedActions : List (Action Nat) :=
  [.lifecycle .completed false, .begin 0 0, .advance 0, .extracted 0 (some [⟨3, [1]⟩, ⟨2, [0]⟩]), .advance 0,
    .advance 0, .advance 0, .fail 0] ++ sampleAttempt 1 0 [3] ++ sampleAttempt 2 1 [4, 5]

def orderedWorld : World Nat :=
  (((machine Nat (sampleJobs 1)).restrict (World.inOrder (sampleJobs 1))).run .init orderedActions).get
    (by decide +kernel)

theorem no_turn_skipped_sample :
    orderedWorld.finished = [1, 0] ∧ orderedWorld.hasExtracted ⟨2, "user".toList, "q".toList⟩ = true ∧
      ∃ r, orderedWorld.row = some r ∧ r.lastExtractedTurn = 5 ∧ SessionRow.default.lastExtractedTurn ≤ 5 := by
  have hfinished : orderedWorld.finished = [1, 0] := by decide +kernel
  have hrow : orderedWorld.row = some ⟨5, .completed, false, 2⟩ := by decide +kernel
  have hl : ((machine Nat (sampleJobs 1)).restrict (World.inOrder (sampleJobs 1))).Later .init orderedWorld :=
    ⟨orderedActions, (some_get _).symm⟩
  have hskipped := no_turn_skipped (.of_init rfl) hl
  exact ⟨hfinished, hskipped.1 0 (by simp [hfinished]) _ (by decide), _, hrow, rfl, hskipped.2 _ _ rfl hrow⟩

def firstTurnActions : List (Action Nat) := [.lifecycle .completed false] ++ sampleAttempt 0 0 [1]

def firstTurnWorld : World Nat :=
  ((machine Nat (sampleJobs 0)).run .init firstTurnActions).get (by decide +kernel)

/-- The question of the first chat turn is never extracted. -/
theorem first_turn_skipped : (machine Nat (sampleJobs 0)).Reachable firstTurnWorld ∧ 0 ∈ firstTurnWorld.finished ∧
      ⟨0, "user".toList, "q".toList⟩ ∈ (sampleJobs 0).turns 0 ∧
      firstTurnWorld.hasExtracted ⟨0, "user".toList, "q".toList⟩ = false := by
  refine ⟨⟨_, rfl, firstTurnActions, (some_get _).symm⟩, ?_, ?_, ?_⟩ <;> decide +kernel

section

variable {μ : Type}

theorem Ended.settled_iff {s : AttemptState μ} (h : Ended s) : (s.trace.filterMap Event.granted?).length ≤ 1 ∧
      (s.trace.filterMap Event.settled? = s.trace.filterMap Event.granted? ↔ s.trace.filterMap Event.granted? = [] ∨
          ∀ e ∈ s.trace.filterMap Event.raised?, e.isTransport = true) := by
  cases h with
  | settled c x h hx =>
    rw [h.granted, h.settled, h.raised]
    cases c with
    | none => simp
    | some c => simpa using hx
  | lost c e h he =>
    rw [h.granted, h.settled, h.raised]
    simp [he]

/-- An attempt is granted at most one hold. When it returns or raises, the hold is finalized or released exactly
if its provider call raised nothing but transport errors. -/
theorem attempts_settle_iff (job : BatchJob μ) (h : job.LedgerSettles) (n tick : Nat) :
    ∀ t ∈ job.attempts n tick, (t.filterMap Event.granted?).length ≤ 1 ∧
      (t.filterMap Event.settled? = t.filterMap Event.granted? ↔
        t.filterMap Event.granted? = [] ∨ ∀ e ∈ t.filterMap Event.raised?, e.isTransport = true) := by
  induction n generalizing tick with
  | zero => simp [BatchJob.attempts]
  | succ n ih =>
    intro t ht
    rcases List.mem_cons.1 ht with rfl | ht
    · exact (attempt_ended h tick).settled_iff
    · exact ih _ t ht

/-! ## A hold that is not settled -/

def refusedClient (status : Nat) : CompatClient where
  endpoint := ⟨"https://api.openai.com/v1".toList, "gpt-4o-mini".toList, some "k".toList⟩
  post _ _ := .response status .decodeError
  loads _ := .decodeError
  str _ := none
  latencyMs _ := 0

/-- The ledger grants every claim and carries out every settlement. -/
def sampleLedger : BudgetLedger where
  claim t req := .ok (some ⟨7, req.principal, req.key, req.requestHash, 3, t⟩)
  finalize _ _ _ _ := .ok .complete
  release _ _ := .ok ()

def sampleJob (status : Nat) : BatchJob Nat where
  orgId := 1
  agentId := 2
  sessionId := 3
  turns := [⟨4, "user".toList, "q".toList⟩]
  provider := (refusedClient status).provider "openai".toList
  writeMemory _ _ := .ok ()
  loadSession _ := .ok (some ⟨0, .completed, false, 1⟩)
  updateLastExtractedTurn _ _ _ := .ok ()
  budgetLedger := some sampleLedger
  systemPrompt := []
  uuidText _ := ['s']
  fingerprintExtractionCall _ _ _ _ := ['h']
  parseBatchResult _ := none

theorem sampleJob_ledgerSettles (status : Nat) : (sampleJob status).LedgerSettles where
  finalize ledger h _ _ _ _ := by
    cases h
    rfl
  release ledger h _ _ := by
    cases h
    rfl

/-- With a server that is overloaded, the three attempts release their holds. -/
theorem attempts_settle_iff_overloaded : ((sampleJob 503).attempts 3 0).length = 3 ∧
    ∀ t ∈ (sampleJob 503).attempts 3 0, (t.filterMap Event.granted?).length = 1 ∧
      t.filterMap Event.settled? = t.filterMap Event.granted? := by
  refine ⟨by decide +kernel, fun t ht => ?_⟩
  have hraised : (∀ t ∈ (sampleJob 503).attempts 3 0, (t.filterMap Event.granted?).length = 1) ∧
      ∀ t ∈ (sampleJob 503).attempts 3 0, ∀ e ∈ t.filterMap Event.raised?, e.isTransport = true := by
    decide +kernel
  exact ⟨hraised.1 t ht, (attempts_settle_iff (sampleJob 503) (sampleJob_ledgerSettles 503) 3 0 t ht).2.2
    (.inr (hraised.2 t ht))⟩

/-- With a server that refuses the key, the attempt raises and its hold stays claimed. -/
theorem attempt_loses_hold : (sampleJob 401).LedgerSettles ∧
      ((sampleJob 401).attempt 0).1 = .error (.provider "extraction provider HTTP 401") ∧
      (((sampleJob 401).attempt 0).2.trace.filterMap Event.granted?).length = 1 ∧
      ((sampleJob 401).attempt 0).2.trace.filterMap Event.settled? = [] :=
  ⟨sampleJob_ledgerSettles 401, by decide +kernel⟩

end

end IbexHarness.Extraction
