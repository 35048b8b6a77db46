import IbexHarness.Lib.Machine
import IbexHarness.UsageFacts.Writer
import Mathlib.Algebra.Order.BigOperators.Group.List
import Mathlib.Algebra.Order.Group.Int

/-! Every accepted fact is stored, in the buffer, in the flush in progress or reported as dropped. -/

namespace IbexHarness.UsageFacts

section

open Lib List Option World Function

def storesNothingOnError (_ : World) : Action → Bool
  | .loop (.error n) | .advanceShutdown _ (.error n) _ => n = 0
  | _ => true

def InsertResult.clean : InsertResult → Prop
  | .ok => True
  | .error n => n = 0

def FlushStage.rows : FlushStage → List UsageFact
  | .insert rows | .requeue rows => rows
  | .take | .returned _ => []

def FlushStage.emptied : FlushStage → Bool
  | .take => false
  | .insert _ | .requeue _ => true
  | .returned ok => ok

def LoopStage.rows : LoopStage → List UsageFact
  | .flush stage => stage.rows
  | .select | .flushOnce | .exited => []

def ShutdownStage.rows : ShutdownStage → List UsageFact
  | .flush stage => stage.rows
  | _ => []

def ShutdownStage.emptied : ShutdownStage → Bool
  | .flush stage => stage.emptied
  | .close ok | .returned ok => ok
  | .idle | .start | .waitLoop | .waitFlush => false

def World.inFlight (w : World) : List UsageFact :=
  w.loop.rows ++ w.first.elim [] fun i => (w.shutdowns i).rows

variable {cfg : UsageFactConfig} {w w' : World} {r : InsertResult}

structure Inv (cfg : UsageFactConfig) (w : World) : Prop where
  fresh : ∀ i, w.nextShutdown ≤ i → w.shutdowns i = .idle
  closed : w.closed = w.first.isSome
  /-- a later `Shutdown` returns nil at once -/
  others : ∀ i, w.first ≠ some i → w.shutdowns i = .idle ∨ w.shutdowns i = .start ∨ w.shutdowns i = .returned true
  entered : ∀ i, w.first = some i → w.shutdowns i ≠ .idle ∧ w.shutdowns i ≠ .start
  exited : ∀ i, w.first = some i → w.shutdowns i = .waitLoop ∨ w.loop = .exited
  emptied : ∀ i, w.first = some i → (w.shutdowns i).emptied = true → w.buf = []
  size : w.buf.length ≤ cfg.maxBufferSize.toNat
  cost : ∀ f ∈ w.accepted, 0 ≤ f.estimatedCostCents
  conserved : ∀ f, w.accepted.count f = w.stored.count f + w.buf.count f + w.inFlight.count f + w.dropped.count f

variable {stage stage' : FlushStage} {i : Nat}

theorem Inv.initial : Inv cfg .initial :=
  ⟨fun _ _ => rfl, rfl, fun _ _ => .inl rfl, nofun, nofun, nofun, Nat.zero_le _, nofun, fun _ => rfl⟩

theorem count_take_drop (f : UsageFact) (n : Nat) (l : List UsageFact) :
    (l.take n).count f + (l.drop n).count f = l.count f := by
  rw [← count_append, take_append_drop]

/-- A step of `Flush` moves facts between the buffer, the flush and the store. -/
structure Flushes (cfg : UsageFactConfig) (w w' : World) (stage stage' : FlushStage) : Prop where
  frame : ∃ buf stored dropped, w' = { w with buf, stored, dropped }
  size : w.buf.length ≤ cfg.maxBufferSize.toNat → w'.buf.length ≤ cfg.maxBufferSize.toNat
  emptied : (stage.emptied = true → w.buf = []) → stage'.emptied = true → w'.buf = []
  conserved : ∀ f, w'.stored.count f + w'.buf.count f + stage'.rows.count f + w'.dropped.count f =
    w.stored.count f + w.buf.count f + stage.rows.count f + w.dropped.count f

theorem flushStep_flushes (hr : r.clean) (hs : w.flushStep cfg r stage = some (w', stage')) :
    Flushes cfg w w' stage stage' := by
  cases stage with
  | take =>
    unfold flushStep at hs
    split_ifs at hs with hbuf <;> cases hs
    · exact ⟨⟨_, _, _, rfl⟩, id, fun _ _ => hbuf, fun _ => rfl⟩
    · refine ⟨⟨_, _, _, rfl⟩, fun _ => Nat.zero_le _, fun _ _ => rfl, fun f => ?_⟩
      simp only [FlushStage.rows, count_nil]
      omega
  | insert rows =>
    cases r with
    | ok =>
      cases hs
      refine ⟨⟨_, _, _, rfl⟩, id, fun h _ => h rfl, fun f => ?_⟩
      simp only [FlushStage.rows, count_append, count_nil]
      omega
    | error n =>
      cases hs
      obtain rfl : n = 0 := hr
      refine ⟨⟨_, _, _, rfl⟩, id, fun h _ => h rfl, fun f => ?_⟩
      simp [FlushStage.rows]
  | requeue rows =>
    cases hs
    refine ⟨⟨_, _, _, rfl⟩, fun _ => length_take_le _ _, nofun, fun f => ?_⟩
    have hsplit := count_take_drop f cfg.maxBufferSize.toNat (rows ++ w.buf)
    simp only [requeueFront, FlushStage.rows, count_append, count_nil] at hsplit ⊢
    omega
  | returned ok => cases hs

theorem require_eq_ok {ok : Bool} {e : WriteError} : require ok e = .ok () ↔ ok = true := by
  cases ok <;> simp [require]

theorem cost_nonneg_of_valid {f : UsageFact} {u : Unit} (h : validateUsageFact f = .ok u) :
    0 ≤ f.estimatedCostCents := by
  obtain ⟨-, h⟩ := Except.seq_eq_ok.mp h
  obtain ⟨-, h⟩ := Except.seq_eq_ok.mp h
  obtain ⟨-, h⟩ := Except.seq_eq_ok.mp h
  cases hsum : addUint32Checked f.inputTokens f.outputTokens with
  | none => simp [hsum] at h
  | some sum =>
    rw [hsum] at h
    obtain ⟨-, h⟩ := Except.seq_eq_ok.mp h
    simpa using require_eq_ok.mp h

section

variable (h : Inv cfg w)
include h

theorem Inv.waitLoop (hloop : w.loop ≠ .exited) (hi : w.first = some i) :
    w.shutdowns i = .waitLoop := (h.exited i hi).resolve_right hloop

theorem Inv.write (hmax : 0 < cfg.maxBufferSize) {f : UsageFact} (hs : w.write cfg f = .ok w') : Inv cfg w' := by
  unfold World.write at hs
  cases hv : validateUsageFact f with
  | error e => simp [hv] at hs
  | ok u =>
    simp only [hv] at hs
    split_ifs at hs with hclosed hfull
    cases hs
    have hfirst : w.first = none := by simpa [h.closed] using hclosed
    refine { h with emptied := fun i hi => ?_, size := ?_, cost := fun g hg => ?_, conserved := fun g => ?_ }
    · rw [hfirst] at hi
      cases hi
    · simp only [length_append, length_singleton]
      omega
    · rcases mem_append.mp hg with hg | hg
      · exact h.cost g hg
      · rw [mem_singleton.mp hg]
        exact cost_nonneg_of_valid hv
    · have hc := h.conserved g
      simp only [inFlight, count_append] at hc ⊢
      omega

theorem Inv.setLoop {loop : LoopStage} {signal : Bool} (hrows : loop.rows = w.loop.rows)
    (hexit : w.loop = .exited → loop = .exited) : Inv cfg { w with loop, signal } where
  __ := h
  exited i hi := (h.exited i hi).imp_right hexit
  conserved f := by
    have hc := h.conserved f
    simpa only [inFlight, hrows] using hc

theorem Inv.flushLoop (hr : r.clean) {v : World}
    (hloop : w.loop = .flush stage) (hs : w.flushStep cfg r stage = some (v, stage')) :
    Inv cfg { v with loop := .flush stage' } := by
  obtain ⟨⟨buf, stored, dropped, rfl⟩, hsize, -, hcons⟩ := flushStep_flushes hr hs
  have hwait := fun i => h.waitLoop (by simp [hloop]) (i := i)
  refine ⟨h.fresh, h.closed, h.others, h.entered, fun i hi => .inl (hwait i hi), fun i hi he => ?_, hsize h.size,
    h.cost, fun f => ?_⟩
  · rw [show ({ w with buf, stored, dropped, loop := .flush stage' } : World).shutdowns i = _ from hwait i hi] at he
    cases he
  · have hc := h.conserved f
    have hf : stored.count f + buf.count f + stage'.rows.count f + dropped.count f =
      w.stored.count f + w.buf.count f + stage.rows.count f + w.dropped.count f := hcons f
    simp only [inFlight, hloop, LoopStage.rows, count_append] at hc ⊢
    omega

theorem Inv.loopStep (hr : r.clean) (hs : w.loopStep cfg r = some w') : Inv cfg w' := by
  unfold World.loopStep at hs
  split at hs
  case h_1 hloop =>
    cases hs
    refine h.setLoop ?_ (by simp [hloop])
    rw [hloop]
    split_ifs <;> rfl
  case h_2 hloop =>
    cases hs
    exact h.setLoop (by rw [hloop]; rfl) (by simp [hloop])
  case h_3 stage _ hloop =>
    obtain ⟨⟨v, stage'⟩, hv, rfl⟩ := map_eq_some_iff.mp hs
    exact h.flushLoop hr hloop hv
  all_goals cases hs

section

variable {stage : ShutdownStage} (hi : w.first = some i) (hstage : stage ≠ .idle ∧ stage ≠ .start)
  (hexit : stage = .waitLoop ∨ w.loop = .exited)
include hi hstage hexit

theorem Inv.moveFirst {buf stored dropped : List UsageFact}
    (hempty : stage.emptied = true → buf = []) (hsize : buf.length ≤ cfg.maxBufferSize.toNat)
    (hcons : ∀ f, stored.count f + buf.count f + stage.rows.count f + dropped.count f =
      w.stored.count f + w.buf.count f + (w.shutdowns i).rows.count f + w.dropped.count f) :
    Inv cfg ({ w with buf, stored, dropped }.setShutdown i stage) := by
  have hself : update w.shutdowns i stage i = stage := update_self ..
  have hfirst : ∀ i', w.first = some i' → i' = i := fun i' hi' => some.inj (hi'.symm.trans hi)
  refine ⟨fun i' hi' => ?_, h.closed, fun i' hi' => ?_, fun i' hi' => ?_, fun i' hi' => ?_, fun i' hi' => ?_, hsize,
    h.cost, fun f => ?_⟩
  · have hne : i' ≠ i := by
      rintro rfl
      exact (h.entered i' hi).1 (h.fresh i' hi')
    exact (update_of_ne hne _ _).trans (h.fresh i' hi')
  · have hne : i' ≠ i := by
      rintro rfl
      exact hi' hi
    simpa [setShutdown, hne] using h.others i' hi'
  · obtain rfl := hfirst i' hi'
    simpa only [setShutdown, hself] using hstage
  · obtain rfl := hfirst i' hi'
    simpa only [setShutdown, hself] using hexit
  · obtain rfl := hfirst i' hi'
    simpa only [setShutdown, hself] using hempty
  · have hc := h.conserved f
    have hf := hcons f
    simp only [inFlight, setShutdown, hi, elim_some, hself, count_append] at hc ⊢
    omega

theorem Inv.setFirst (hempty : stage.emptied = true → w.buf = []) (hrows : stage.rows = (w.shutdowns i).rows) :
    Inv cfg (w.setShutdown i stage) :=
  h.moveFirst hi hstage hexit hempty h.size fun f => by rw [hrows]

end

theorem Inv.flushFirst (hr : r.clean) {v : World}
    (hi : w.first = some i) (hstage : w.shutdowns i = .flush stage)
    (hs : w.flushStep cfg r stage = some (v, stage')) : Inv cfg (v.setShutdown i (.flush stage')) := by
  obtain ⟨⟨buf, stored, dropped, rfl⟩, hsize, hempty, hcons⟩ := flushStep_flushes hr hs
  have hexit : w.loop = .exited := (h.exited i hi).resolve_left (by simp [hstage])
  refine h.moveFirst hi (by simp) (.inr hexit) (fun he => hempty (fun hs => ?_) he) (hsize h.size) fun f => ?_
  · exact h.emptied i hi (by rw [hstage]; exact hs)
  · rw [hstage]
    exact hcons f

theorem Inv.first_eq {stage : ShutdownStage} (hstage : w.shutdowns i = stage)
    (hne : stage ≠ .idle ∧ stage ≠ .start ∧ stage ≠ .returned true) : w.first = some i := by
  by_contra hfirst
  have hothers := h.others i hfirst
  rw [hstage] at hothers
  simp [hne] at hothers

theorem Inv.startFirst (hstage : w.shutdowns i = .start) (hopen : w.closed = false) :
    Inv cfg ({ w with closed := true, first := some i }.setShutdown i .waitLoop) := by
  have hnone : w.first = none := by simpa [h.closed] using hopen
  refine ⟨fun i' hi' => ?_, rfl, fun i' hi' => ?_, fun i' hi' => ?_, fun i' hi' => ?_, fun i' hi' he => ?_, h.size,
    h.cost, fun f => ?_⟩
  · have hne : i' ≠ i := by
      rintro rfl
      exact absurd (hstage.symm.trans (h.fresh i' hi')) (by decide)
    exact (update_of_ne hne _ _).trans (h.fresh i' hi')
  · have hne : i' ≠ i := fun heq => hi' (congrArg some heq.symm)
    simpa [setShutdown, hne] using h.others i' (by simp [hnone])
  · cases hi'
    simp [setShutdown]
  · cases hi'
    simp [setShutdown]
  · cases hi'
    simp [setShutdown, ShutdownStage.emptied] at he
  · have hc := h.conserved f
    simpa [inFlight, setShutdown, hnone, ShutdownStage.rows] using hc

theorem Inv.setOther {nextShutdown : Nat} {stage : ShutdownStage} (hi : w.first ≠ some i)
    (hstage : stage = .idle ∨ stage = .start ∨ stage = .returned true)
    (hnext : ∀ i', nextShutdown ≤ i' → i' ≠ i ∧ w.nextShutdown ≤ i') :
    Inv cfg { w.setShutdown i stage with nextShutdown } := by
  have hne : ∀ i', w.first = some i' → i' ≠ i := by
    rintro i' hi' rfl
    exact hi hi'
  refine ⟨fun i' hi' => ?_, h.closed, fun i' hi' => ?_, fun i' hi' => ?_, fun i' hi' => ?_, fun i' hi' he => ?_, h.size,
    h.cost, fun f => ?_⟩
  · exact (update_of_ne (hnext i' hi').1 _ _).trans (h.fresh i' (hnext i' hi').2)
  · by_cases heq : i' = i
    · simpa [setShutdown, heq] using hstage
    · simpa [setShutdown, heq] using h.others i' hi'
  · simpa [setShutdown, hne i' hi'] using h.entered i' hi'
  · simpa [setShutdown, hne i' hi'] using h.exited i' hi'
  · exact h.emptied i' hi' (by simpa [setShutdown, hne i' hi'] using he)
  · have hc := h.conserved f
    cases hf : w.first with
    | none => simpa [inFlight, setShutdown, hf] using hc
    | some i' => simpa [inFlight, setShutdown, hf, hne i' hf] using hc

theorem Inv.returnLater (hstage : w.shutdowns i = .start) : Inv cfg (w.setShutdown i (.returned true)) := by
  refine h.setOther (fun hi => (h.entered i hi).2 hstage) (.inr (.inr rfl)) fun i' hi' => ⟨?_, hi'⟩
  rintro rfl
  exact absurd (hstage.symm.trans (h.fresh i' hi')) (by decide)

theorem Inv.shutdownStep (hr : r.clean) {closed : Bool}
    (hs : w.shutdownStep cfg i r closed = some w') : Inv cfg w' := by
  unfold World.shutdownStep at hs
  split at hs
  case h_1 hstage =>
    split_ifs at hs with hclosed <;> cases hs
    · exact h.returnLater hstage
    · exact h.startFirst hstage (by simpa using hclosed)
  case h_2 hstage =>
    obtain ⟨hexit, rfl⟩ := of_ite_some hs
    have hi := h.first_eq hstage (by simp)
    exact h.setFirst hi (by simp) (.inr hexit) nofun (by rw [hstage]; rfl)
  case h_3 hstage =>
    obtain ⟨-, rfl⟩ := of_ite_some hs
    have hi := h.first_eq hstage (by simp)
    exact h.setFirst hi (by simp) (.inr ((h.exited i hi).resolve_left (by simp [hstage]))) nofun (by rw [hstage]; rfl)
  case h_4 ok hstage =>
    cases hs
    have hi := h.first_eq hstage (by simp)
    exact h.setFirst hi (by simp) (.inr ((h.exited i hi).resolve_left (by simp [hstage])))
      (fun he => h.emptied i hi (by rw [hstage]; exact he)) (by rw [hstage]; rfl)
  case h_5 stage _ hstage =>
    obtain ⟨⟨v, stage'⟩, hv, rfl⟩ := map_eq_some_iff.mp hs
    have hi := h.first_eq hstage (by simp)
    exact h.flushFirst hr hi hstage hv
  case h_6 ok hstage =>
    cases hs
    have hi := h.first_eq hstage (by simp)
    refine h.setFirst hi (by simp) (.inr ((h.exited i hi).resolve_left (by simp [hstage]))) (fun he => ?_)
      (by rw [hstage]; rfl)
    have hok : ok = true ∧ closed = true := by simpa [ShutdownStage.emptied] using he
    exact h.emptied i hi (by rw [hstage]; exact hok.1)
  all_goals cases hs

theorem Inv.step (hmax : 0 < cfg.maxBufferSize) {a : Action} (hc : storesNothingOnError w a = true)
    (hs : w.step cfg a = some w') : Inv cfg w' := by
  have hclean : ∀ r i closed, a = .loop r ∨ a = .advanceShutdown i r closed → r.clean := by
    rintro (_ | n) i closed (rfl | rfl)
    · exact trivial
    · exact trivial
    · exact of_decide_eq_true (p := n = 0) hc
    · exact of_decide_eq_true (p := n = 0) hc
  cases a with
  | write f =>
    simp only [World.step] at hs
    cases hw : w.write cfg f with
    | ok v =>
      rw [hw] at hs
      cases hs
      exact h.write hmax hw
    | error e =>
      rw [hw] at hs
      cases hs
      exact h
  | tick =>
    obtain ⟨hloop, rfl⟩ := of_ite_some hs
    exact h.setLoop (by rw [hloop]; rfl) (by simp [hloop])
  | receive =>
    obtain ⟨⟨hloop, -⟩, rfl⟩ := of_ite_some hs
    exact h.setLoop (by rw [hloop]; rfl) (by simp [hloop])
  | stop =>
    obtain ⟨⟨hloop, -⟩, rfl⟩ := of_ite_some hs
    exact h.setLoop (by rw [hloop]; rfl) fun _ => rfl
  | loop r => exact h.loopStep (hclean r 0 true (.inl rfl)) hs
  | shutdown =>
    cases hs
    refine h.setOther (fun hi => (h.entered _ hi).1 (h.fresh _ (Nat.le_refl _))) (.inr (.inl rfl)) fun i' hi' => ?_
    exact ⟨Nat.ne_of_gt hi', Nat.le_of_succ_le hi'⟩
  | advanceShutdown i r closed => exact h.shutdownStep (hclean r i closed (.inr rfl)) hs

end

theorem maxBufferSize_pos (cfg : UsageFactConfig) : 0 < cfg.applyDefaults.maxBufferSize := by
  simp only [UsageFactConfig.applyDefaults]
  split_ifs with h
  · decide
  · omega

theorem inv_of_reachable (hr : ((machine cfg).restrict storesNothingOnError).Reachable w) :
    Inv cfg.applyDefaults w := by
  refine hr.invariant ?_ fun v a v' hi hs => ?_
  · rintro v rfl
    exact .initial
  · obtain ⟨hc, hs⟩ := Machine.restrict_step_eq_some.mp hs
    exact hi.step (maxBufferSize_pos cfg) hc hs

end

/-! As long as an insert that returns an error has stored nothing. -/

open Lib List Option

variable {cfg : UsageFactConfig} {w : World}

/-- Accepted facts are where the invariant says, and all stored or dropped after a `Shutdown` that returned nil. -/
theorem facts_conserved (hr : ((machine cfg).restrict storesNothingOnError).Reachable w) :
    w.accepted.Perm (w.stored ++ w.buf ++ w.inFlight ++ w.dropped) ∧
      (w.buf.length : Int) ≤ cfg.applyDefaults.maxBufferSize ∧
      ∀ i, w.first = some i → w.shutdowns i = .returned true → w.accepted.Perm (w.stored ++ w.dropped) := by
  have h := inv_of_reachable hr
  have hall : w.accepted.Perm (w.stored ++ w.buf ++ w.inFlight ++ w.dropped) := by
    refine perm_iff_count.mpr fun f => ?_
    simpa only [List.count_append] using h.conserved f
  refine ⟨hall, ?_, fun i hi hstage => ?_⟩
  · have hsize := h.size
    have hmax := maxBufferSize_pos cfg
    omega
  · have hbuf : w.buf = [] := h.emptied i hi (by rw [hstage]; rfl)
    have hexit : w.loop = .exited := (h.exited i hi).resolve_left (by simp [hstage])
    have hflight : w.inFlight = [] := by simp [World.inFlight, hi, hstage, hexit, LoopStage.rows, ShutdownStage.rows]
    simpa [hbuf, hflight] using hall

def sampleFact : UsageFact where
  requestID := "r".toList
  orgID := 1
  agentID := 1
  provider := "p".toList
  model := "m".toList
  originalModel := none
  fallbackModel := none
  fallbackReason := []
  inputTokens := 1
  outputTokens := 1
  totalTokens := 2
  estimatedCostCents := 1
  rateCardVersion := "v".toList
  completeness := []
  occurredAt := 1000

/-- Room for two facts; the size of a batch is defaulted. -/
def sampleConfig : UsageFactConfig := ⟨0, 2⟩

/-- Two facts are taken, the insert fails while a third one is written, which the requeue drops; then a shutdown. -/
def shutRun : List Action :=
  [.write sampleFact, .write sampleFact, .tick, .loop .ok, .loop .ok, .write sampleFact, .loop (.error 0), .loop .ok,
    .loop .ok, .shutdown, .advanceShutdown 0 .ok true, .stop] ++ List.replicate 6 (.advanceShutdown 0 .ok true)

def shutWorld : World :=
  (((machine sampleConfig).restrict storesNothingOnError).run .initial shutRun).get (by decide +kernel)

theorem facts_conserved_sample : shutWorld.accepted.length = 3 ∧ shutWorld.dropped.length = 1 ∧
      shutWorld.accepted.Perm (shutWorld.stored ++ shutWorld.dropped) := by
  have hr : ((machine sampleConfig).restrict storesNothingOnError).Reachable shutWorld :=
    ⟨_, rfl, _, (some_get _).symm⟩
  exact ⟨by decide +kernel, by decide +kernel, (facts_conserved hr).2.2 0 (by decide +kernel) (by decide +kernel)⟩

/-! ## Spend -/

theorem sum_nonneg {rows : List UsageFact} (h : ∀ f ∈ rows, 0 ≤ f.estimatedCostCents) :
    0 ≤ (rows.map UsageFact.estimatedCostCents).sum := by
  refine List.sum_nonneg fun c hc => ?_
  obtain ⟨f, hf, rfl⟩ := List.mem_map.mp hc
  exact h f hf

/-- Each accepted fact is stored at most once, so that the rollup reads no more than was accepted. -/
theorem spend_counted_once (hr : ((machine cfg).restrict storesNothingOnError).Reachable w) :
    (∀ f, w.stored.count f ≤ w.accepted.count f) ∧ ∀ orgID periodStart periodEnd,
        sumSpent w.stored orgID periodStart periodEnd ≤ sumSpent w.accepted orgID periodStart periodEnd ∧
          sumSpent w.stored orgID periodStart periodEnd ≤ (w.accepted.map UsageFact.estimatedCostCents).sum := by
  have h := inv_of_reachable hr
  have hcount : ∀ f, w.accepted.count f = (w.stored ++ (w.buf ++ w.inFlight ++ w.dropped)).count f := by
    intro f
    simp only [h.conserved f, count_append]
    omega
  have hperm : w.accepted.Perm (w.stored ++ (w.buf ++ w.inFlight ++ w.dropped)) := perm_iff_count.mpr hcount
  have hmem : ∀ f ∈ w.stored ++ (w.buf ++ w.inFlight ++ w.dropped), 0 ≤ f.estimatedCostCents :=
    fun f hf => h.cost f (hperm.mem_iff.mpr hf)
  refine ⟨fun f => ?_, fun orgID periodStart periodEnd => ?_⟩
  · rw [hcount f, count_append]
    exact Nat.le_add_right _ _
  · -- what is accepted and not stored has a cost of at least zero
    have hsum : ∀ p : UsageFact → Bool, ((w.stored.filter p).map UsageFact.estimatedCostCents).sum ≤
        ((w.accepted.filter p).map UsageFact.estimatedCostCents).sum := by
      intro p
      rw [((hperm.filter p).map _).sum_eq, filter_append, map_append, sum_append]
      refine le_add_of_nonneg_right (sum_nonneg fun f hf => hmem f ?_)
      exact mem_append_right _ (mem_of_mem_filter hf)
    have htotal : ((w.accepted.filter fun f => f.orgID = orgID && periodStart ≤ f.occurredAt &&
        f.occurredAt < periodEnd).map UsageFact.estimatedCostCents).sum ≤
          (w.accepted.map UsageFact.estimatedCostCents).sum := by
      refine List.Sublist.sum_le_sum (filter_sublist.map _) fun c hc => ?_
      obtain ⟨f, hf, rfl⟩ := mem_map.mp hc
      exact h.cost f hf
    exact ⟨max_le_max_right 0 (hsum _), max_le ((hsum _).trans htotal) (sum_nonneg h.cost)⟩

/-- The facts of the sample run, stored once. -/
theorem spend_counted_once_sample : shutWorld.stored.count sampleFact = 2 ∧ sumSpent shutWorld.stored 1 0 2000 = 2 ∧
      sumSpent shutWorld.stored 1 0 2000 ≤ (shutWorld.accepted.map UsageFact.estimatedCostCents).sum := by
  have hr : ((machine sampleConfig).restrict storesNothingOnError).Reachable shutWorld :=
    ⟨_, rfl, _, (some_get _).symm⟩
  exact ⟨by decide +kernel, by decide +kernel, ((spend_counted_once hr).2 1 0 2000).2⟩

/-- The insert stores the fact and reports an error; the next flush stores it again. -/
def doubledWorld : World :=
  ((machine sampleConfig).run .initial ([.write sampleFact, .tick, .loop .ok, .loop .ok, .loop (.error 1), .loop .ok,
    .loop .ok, .tick, .loop .ok, .loop .ok, .loop .ok])).get (by decide +kernel)

theorem spend_counted_twice : (machine sampleConfig).Reachable doubledWorld ∧ doubledWorld.accepted = [sampleFact] ∧
      doubledWorld.stored = [sampleFact, sampleFact] ∧ sumSpent doubledWorld.stored 1 0 2000 = 2 ∧
      (doubledWorld.accepted.map UsageFact.estimatedCostCents).sum = 1 :=
  ⟨⟨_, rfl, _, (some_get _).symm⟩, by decide +kernel, by decide +kernel, by decide +kernel, by decide +kernel⟩

end IbexHarness.UsageFacts
