import IbexHarness.Lib.Liveness

/-! `Loop` of `packages/redissub/loop.go`: one `Run` and any number of `Stop` calls. -/

namespace IbexHarness.Redissub

open Lib Function

/-- The steps of `Run`; the number is that of the session's context. -/
inductive Phase where
  | idle
  | check
  | create
  /-- before `listenCancel.Store` -/
  | store (k : Nat)
  | recheck (k : Nat)
  /-- before `listen` is called -/
  | enter (k : Nat)
  | listening (k : Nat)
  /-- before `cancel()` -/
  | leave (k : Nat)
  | checkAgain
  | sleep
  /-- before `close(l.doneCh)` -/
  | exit
  | returned
deriving DecidableEq

inductive StopPhase where
  | idle
  /-- before `listenCancel.Load` -/
  | load
  | cancel (ptr : Option Nat)
  /-- before `started.Load` -/
  | started
  | wait
  | returned
deriving DecidableEq

structure World where
  run : Phase
  stops : Nat → StopPhase
  stopCh : Bool
  doneCh : Bool
  /-- the context of `Run` is done -/
  ctxDone : Bool
  started : Bool
  listenCancel : Option Nat
  cancelled : Nat → Bool
  sessions : Nat
  /-- how many sessions were entered since the stop channel is closed -/
  late : Nat

inductive Action where
  | callRun
  | run
  /-- the session ends by itself -/
  | listenEnds
  | timer
  | stop (i : Nat)
  /-- `stopWait` is over -/
  | stopTimeout (i : Nat)
  | ctxDone
deriving DecidableEq

namespace World

variable (w : World)

def stopped : Bool := w.stopCh || w.ctxDone

/-- The context of the session is cancelled, by its own function or with the context of `Run`. -/
def sessionDone (k : Nat) : Bool := w.cancelled k || w.ctxDone

def cancel (k : Nat) : World := { w with cancelled := update w.cancelled k true }

def setStop (i : Nat) (p : StopPhase) : World := { w with stops := update w.stops i p }

def advanceRun : Option World :=
  match w.run with
  | .idle | .returned => none
  | .check => some { w with run := if w.stopped then .exit else .create }
  | .create => some { w with run := .store w.sessions, sessions := w.sessions + 1 }
  | .store k => some { w with run := .recheck k, listenCancel := some k }
  | .recheck k => some { w with run := if w.stopped then .leave k else .enter k }
  | .enter k => some { w with run := .listening k, late := if w.stopCh then w.late + 1 else w.late }
  | .listening k => if w.sessionDone k then some { w with run := .leave k } else none
  | .leave k => some { w.cancel k with run := .checkAgain }
  | .checkAgain => some { w with run := if w.stopped then .exit else .sleep }
  | .sleep => if w.stopped then some { w with run := .exit } else none
  | .exit => some { w with run := .returned, doneCh := true }

def advanceStop (i : Nat) : Option World :=
  match w.stops i with
  | .idle => some ({ w with stopCh := true }.setStop i .load)
  | .load => some (w.setStop i (.cancel w.listenCancel))
  | .cancel (some k) => some ((w.cancel k).setStop i .started)
  | .cancel none => some (w.setStop i .started)
  | .started => some (w.setStop i (if w.started then .wait else .returned))
  | .wait => if w.doneCh then some (w.setStop i .returned) else none
  | .returned => none

def step : Action → Option World
  | .callRun => if w.run = .idle then some { w with run := .check, started := true } else none
  | .run => w.advanceRun
  | .listenEnds =>
    match w.run with
    | .listening k => some { w with run := .leave k }
    | _ => none
  | .timer => if w.run = .sleep then some { w with run := .check } else none
  | .stop i => w.advanceStop i
  | .stopTimeout i => if w.stops i = .wait then some (w.setStop i .returned) else none
  | .ctxDone => some { w with ctxDone := true }

end World

def machine : Machine World Action where
  init w := w = ⟨.idle, fun _ => .idle, false, false, false, false, none, fun _ => false, 0, 0⟩
  step := World.step

/-! ## The session that `Run` is in -/

namespace Phase

@[grind =]
def stored : Phase → Option Nat
  | .recheck k | .enter k | .listening k => some k
  | .idle | .check | .create | .store _ | .leave _ | .checkAgain | .sleep | .exit | .returned => none

/-- The session that is running or about to. -/
@[grind =]
def entered : Phase → Option Nat
  | .enter k | .listening k => some k
  | .idle | .check | .create | .store _ | .recheck _ | .leave _ | .checkAgain | .sleep | .exit | .returned => none

@[grind →]
theorem stored_of_entered {p : Phase} {k : Nat} (h : p.entered = some k) : p.stored = some k := by
  cases p <;> simp_all [entered, stored]

/-- How many steps `Run` is from its end once it is told to stop. -/
@[grind =]
def rank : Phase → Nat
  | .idle | .returned => 0
  | .exit => 1
  | .check => 2
  | .sleep => 3
  | .checkAgain => 4
  | .leave _ => 5
  | .listening _ | .recheck _ => 6
  | .enter _ | .store _ => 7
  | .create => 8

end Phase

@[grind =]
def StopPhase.cancelled : StopPhase → Bool
  | .idle | .load | .cancel _ => false
  | .started | .wait | .returned => true

variable {w w' : World} {a : Action}

structure Inv (w : World) : Prop where
  stored : ∀ k, w.run.stored = some k → w.listenCancel = some k
  closed : ∀ i, w.stops i ≠ .idle → w.stopCh = true
  /-- a `Stop` that has read the pointer has read that of the session -/
  loaded : ∀ i k ptr, w.run.entered = some k → w.stops i = .cancel ptr → ptr = some k
  cancelled : ∀ i k, w.run.entered = some k → (w.stops i).cancelled = true → w.cancelled k = true
  early : w.stopCh = false → w.late = 0
  late : w.late ≤ 1
  entering : ∀ k, w.run = .enter k → w.late = 0

theorem Inv.away (h : Inv w) (run : Phase) (hrun : run.stored = none) : Inv { w with run } := by
  have hnone : run.entered = none := by cases run <;> first | rfl | cases hrun
  exact { h with
    stored := by simp [hrun], loaded := by simp [hnone], cancelled := by simp [hnone]
    entering := by rintro k rfl; cases hrun }

theorem Inv.advanceRun (h : Inv w) (hs : w.advanceRun = some w') : Inv w' := by
  have hstored := h.stored
  have hloaded := h.loaded
  have hcancelled := h.cancelled
  unfold World.advanceRun at hs
  cases hrun : w.run with rw [hrun] at hs hstored hloaded hcancelled
  | idle | returned => cases hs
  | check | checkAgain =>
    cases hs
    exact h.away _ (by split <;> rfl)
  | create =>
    cases hs
    exact { h.away (.store w.sessions) rfl with }
  | store k =>
    cases hs
    exact { h with stored := fun _ => id, loaded := nofun, cancelled := nofun, entering := nofun }
  | recheck k =>
    cases hs
    split
    · exact h.away _ rfl
    · -- no `Stop` has closed the channel, and one that does so later will find the stored function
      have hopen : w.stopCh = false := by simp_all [World.stopped]
      have hidle : ∀ i, w.stops i = .idle := by simpa [hopen] using h.closed
      exact { h with
        stored := hstored, loaded := by simp [hidle], cancelled := by simp [hidle, StopPhase.cancelled]
        entering := fun _ _ => h.early hopen }
  | enter k =>
    cases hs
    have hlate := h.entering k hrun
    exact { h with
      stored := hstored, loaded := hloaded, cancelled := hcancelled, early := by simp_all
      late := by dsimp only; split <;> omega
      entering := nofun }
  | listening k | sleep =>
    obtain ⟨-, rfl⟩ := of_ite_some hs
    exact h.away _ rfl
  | leave k =>
    cases hs
    exact { h.away .checkAgain rfl with cancelled := nofun }
  | exit =>
    cases hs
    exact { h.away .returned rfl with }

variable {i : Nat}

theorem Inv.setStop {p : StopPhase} (h : Inv w) (hstop : w.stopCh = true)
    (hload : ∀ k ptr, w.run.entered = some k → p = .cancel ptr → ptr = some k)
    (hcancel : ∀ k, w.run.entered = some k → p.cancelled = true → w.cancelled k = true) : Inv (w.setStop i p) := by
  refine { h with closed := fun _ _ => hstop, loaded := fun j => ?_, cancelled := fun j => ?_ } <;>
  · dsimp only [World.setStop]
    grind [update_apply, h.loaded, h.cancelled]

theorem Inv.advanceStop (h : Inv w) (hs : w.advanceStop i = some w') : Inv w' := by
  have hstop := h.closed i
  unfold World.advanceStop at hs
  cases hp : w.stops i with rw [hp] at hs hstop
  | idle =>
    cases hs
    have hclose : Inv { w with stopCh := true } := { h with closed := fun _ _ => rfl, early := nofun }
    exact hclose.setStop rfl nofun nofun
  | load =>
    cases hs
    refine h.setStop (hstop nofun) (fun k ptr hk hptr => ?_) nofun
    cases hptr
    exact h.stored k (Phase.stored_of_entered hk)
  | cancel ptr =>
    cases ptr with
    | none =>
      cases hs
      exact h.setStop (hstop nofun) nofun fun k hk _ => nomatch h.loaded i k _ hk hp
    | some k =>
      cases hs
      have hcancel : Inv (w.cancel k) :=
        { h with cancelled := fun j k' hk hc => by simp [World.cancel, update_apply, h.cancelled j k' hk hc] }
      refine hcancel.setStop (hstop nofun) nofun fun k' hk _ => ?_
      cases h.loaded i k' _ hk hp
      exact update_self ..
  | started =>
    cases hs
    exact h.setStop (hstop nofun) (by split <;> exact nofun) fun k hk _ => h.cancelled i k hk (by rw [hp]; rfl)
  | wait =>
    obtain ⟨-, rfl⟩ := of_ite_some hs
    exact h.setStop (hstop nofun) nofun fun k hk _ => h.cancelled i k hk (by rw [hp]; rfl)
  | returned => cases hs

theorem Inv.step (h : Inv w) (hs : w.step a = some w') : Inv w' := by
  cases a with
  | run => exact h.advanceRun hs
  | stop i => exact h.advanceStop hs
  | callRun | timer =>
    obtain ⟨-, rfl⟩ := of_ite_some hs
    exact { h.away .check rfl with }
  | listenEnds =>
    simp only [World.step] at hs
    split at hs <;> cases hs
    exact h.away _ rfl
  | stopTimeout i =>
    obtain ⟨hp, rfl⟩ := of_ite_some hs
    exact h.setStop (h.closed i (by simp [hp])) nofun fun k hk _ => h.cancelled i k hk (by rw [hp]; rfl)
  | ctxDone =>
    cases hs
    exact { h with }

theorem Inv.reachable (h : machine.Reachable w) : Inv w := by
  refine h.invariant (fun w hw => ?_) fun _ _ _ h hs => h.step hs
  cases hw
  constructor <;> grind

theorem returned_step (hi : w.stops i = .returned) (hs : w.step a = some w') : w'.stops i = .returned := by
  have hset (w : World) j p : (w.setStop j p).stops i = if i = j then p else w.stops i := update_apply ..
  have hcancel (w : World) k : (w.cancel k).stops i = w.stops i := rfl
  cases a <;> grind [World.step, World.advanceRun, World.advanceStop]

/-- Once the stop channel is closed each step of `Run` brings it nearer to its end. -/
theorem rank_step (hstop : w.stopCh = true) (hrun : w.run ≠ .idle) (hs : w.step a = some w') :
    w'.run ≠ .idle ∧ (w'.run.rank < w.run.rank ∨ w'.run = w.run ∧ a ≠ .run) := by
  cases a <;> grind [World.step, World.advanceRun, World.advanceStop, World.setStop, World.cancel, World.stopped]

theorem Inv.enabled (h : Inv w) (hi : w.stops i = .returned) (hrun : w.run ≠ .idle) (hret : w.run ≠ .returned) :
    w.step .run ≠ none := by
  have hstop : w.stopCh = true := h.closed i (by simp [hi])
  have hcancelled := h.cancelled i
  grind [World.step, World.advanceRun, World.stopped, World.sessionDone]

/-- A `Stop` that has returned is final. -/
theorem stop_final :
    (∀ w w' i k, machine.Reachable w → w.stops i = .returned → machine.Later w w' → w'.run.entered = some k →
      w'.cancelled k = true) ∧
    (∀ w, machine.Reachable w → w.late ≤ 1) ∧
    ∀ t : machine.Trace, t.Fair (· = .run) → ∀ n i, (t.state n).stops i = .returned → (t.state n).run ≠ .idle →
      ∃ m, n ≤ m ∧ (t.state m).run = .returned := by
  refine ⟨fun w w' i k hr hi hl hk => ?_, fun w hr => (Inv.reachable hr).late, fun t hfair n i hi hrun => ?_⟩
  · have hi' : w'.stops i = .returned :=
      hl.stable (P := fun w => w.stops i = .returned) (fun _ _ _ => returned_step) hi
    exact (Inv.reachable (hr.later hl)).cancelled i k hk (by rw [hi', StopPhase.cancelled])
  · by_cases hret : (t.state n).run = .returned
    · exact ⟨n, Nat.le_refl n, hret⟩
    · refine Machine.Trace.eventually (P := fun w => w.stops i = .returned ∧ w.run ≠ .idle ∧ w.run ≠ .returned)
        (Q := fun w => w.run = .returned) (H := fun (_ : Unit) _ => True) (fun w => w.run.rank) (fun _ => hfair)
        (fun _ _ _ => ⟨(), trivial⟩)
        (fun w _ hr hp _ => ⟨_, rfl, (Inv.reachable hr).enabled hp.1 hp.2.1 hp.2.2⟩)
        (fun w a w' _ hr hp _ hs => ?_) ⟨hi, hrun, hret⟩
      obtain ⟨hi, hrun, -⟩ := hp
      have hstop : w.stopCh = true := (Inv.reachable hr).closed i (by simp [hi])
      obtain ⟨hrun', hrank⟩ := rank_step hstop hrun hs
      by_cases hret' : w'.run = .returned
      · exact .inl hret'
      · exact .inr ⟨⟨returned_step hi hs, hrun', hret'⟩, by grind⟩

/-- A `Stop` that came when a session was about to be entered, and has not waited for its end. -/
def timedOut : World :=
  (machine.run ⟨.idle, fun _ => .idle, false, false, false, false, none, fun _ => false, 0, 0⟩
    [.callRun, .run, .run, .run, .run, .stop 0, .stop 0, .stop 0, .stop 0, .run, .stopTimeout 0]).get (by decide)

theorem stop_final_listening :
    timedOut.stops 0 = .returned ∧ timedOut.run = .listening 0 ∧ timedOut.cancelled 0 = true := by
  have hr : machine.Reachable timedOut := ⟨_, rfl, _, (Option.some_get _).symm⟩
  have hi : timedOut.stops 0 = .returned := by decide
  have hrun : timedOut.run = .listening 0 := by decide
  exact ⟨hi, hrun, stop_final.1 timedOut timedOut 0 0 hr hi (.refl _) (by rw [hrun]; rfl)⟩

end IbexHarness.Redissub
