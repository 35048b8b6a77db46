import IbexHarness.Lib.Machine

/-! `services/proxy/internal/asyncpool/pool.go`, with a step for each operation that others can see. -/

namespace IbexHarness.AsyncPool

open Lib

structure Config where
  workers : Nat
  queueSize : Nat
  workers_pos : 0 < workers
  queueSize_pos : 0 < queueSize

inductive CallStage where
  /-- `beginSubmit` -/
  | begin (try_ : Bool)
  /-- the `select` of `Submit` -/
  | select
  /-- `sendMu.Lock()` of `TrySubmit` -/
  | lock
  /-- `closed.Load()` under `sendMu` -/
  | check
  /-- the `select` of `TrySubmit` under `sendMu` -/
  | trySend
  /-- `sendMu.Unlock()` -/
  | unlock (ok : Bool)
  /-- `submitWG.Done()` -/
  | done (ok : Bool)
  | returned (ok : Bool)
deriving DecidableEq

def CallStage.counted : CallStage → Bool
  | .begin _ | .returned _ => false
  | _ => true

inductive WorkerStage where
  /-- `for fn := range p.jobs` -/
  | receive
  | running (job : Nat)
  | exited
deriving DecidableEq

inductive ShutdownStage where
  /-- `drainOnce.Do` -/
  | once
  /-- the `select` of `Shutdown` -/
  | select
  | returned (ok : Bool)
deriving DecidableEq

structure Shutdown where
  /-- the context can be done -/
  deadline : Bool
  stage : ShutdownStage
deriving DecidableEq

inductive DrainStage where
  | none
  /-- `submitWG.Wait()` -/
  | waitSubmits
  | lock
  /-- `close(p.jobs)` -/
  | close
  | unlock
  /-- `wg.Wait()` -/
  | waitWorkers
  | drained
deriving DecidableEq

inductive Holder where
  | call (i : Nat)
  | drain

structure World where
  /-- the channel `jobs` -/
  jobs : List Nat
  jobsClosed : Bool
  /-- a send on the closed channel -/
  panicked : Bool
  /-- `closed` and `quit` -/
  closed : Bool
  sendMu : Option Holder
  calls : List CallStage
  workers : List WorkerStage
  shutdowns : List Shutdown
  drain : DrainStage
  /-- jobs in the order in which workers began to run them -/
  ran : List Nat
  finished : List Nat

inductive Choice where
  | quit
  | send

inductive Action where
  | submit (try_ nil : Bool)
  | advanceCall (i : Nat) (choice : Choice)
  | worker (k : Nat)
  | shutdown (deadline : Bool)
  | advanceShutdown (s : Nat)
  /-- the context of a shutdown is done -/
  | cancel (s : Nat)
  | drain

namespace World

variable (cfg : Config) (w : World)

def setCall (i : Nat) (stage : CallStage) : World := { w with calls := w.calls.set i stage }

/-- `jobs <- fn` in a `select`; `none` if the channel is not ready. -/
def send (i : Nat) (next : CallStage) : Option World :=
  if w.jobsClosed then some { w with panicked := true }
  else if w.jobs.length < cfg.queueSize then some ({ w with jobs := w.jobs ++ [i] }.setCall i next)
  else none

def advanceCall (i : Nat) (choice : Choice) : Option World :=
  match w.calls[i]? with
  | some (.begin try_) =>
    some (w.setCall i (if w.closed then .returned false else if try_ then .lock else .select))
  | some .select =>
    match choice with
    | .quit => if w.closed then some (w.setCall i (.done false)) else none
    | .send => w.send cfg i (.done true)
  | some .lock => if w.sendMu = none then some ({ w with sendMu := some (.call i) }.setCall i .check) else none
  | some .check => some (w.setCall i (if w.closed then .unlock false else .trySend))
  | some .trySend => some ((w.send cfg i (.unlock true)).getD (w.setCall i (.unlock false)))
  | some (.unlock ok) => some ({ w with sendMu := none }.setCall i (.done ok))
  | some (.done ok) => some (w.setCall i (.returned ok))
  | some (.returned _) | none => none

def setWorker (k : Nat) (stage : WorkerStage) : World := { w with workers := w.workers.set k stage }

def advanceWorker (k : Nat) : Option World :=
  match w.workers[k]? with
  | some .receive =>
    match w.jobs with
    | job :: jobs => some ({ w with jobs, ran := w.ran ++ [job] }.setWorker k (.running job))
    | [] => if w.jobsClosed then some (w.setWorker k .exited) else none
  | some (.running job) => some ({ w with finished := w.finished ++ [job] }.setWorker k .receive)
  | some .exited | none => none

def setShutdown (s : Nat) (stage : ShutdownStage) (S : Shutdown) : World :=
  { w with shutdowns := w.shutdowns.set s { S with stage } }

def advanceShutdown (s : Nat) : Option World :=
  match w.shutdowns[s]? with
  | none => none
  | some S =>
    match S.stage with
    | .once =>
      if w.drain = .none then some ({ w with closed := true, drain := .waitSubmits }.setShutdown s .select S)
      else some (w.setShutdown s .select S)
    | .select => if w.drain = .drained then some (w.setShutdown s (.returned true) S) else none
    | .returned _ => none

def cancel (s : Nat) : Option World :=
  match w.shutdowns[s]? with
  | none => none
  | some S => if S.deadline ∧ S.stage = .select then some (w.setShutdown s (.returned false) S) else none

def advanceDrain : Option World :=
  match w.drain with
  | .waitSubmits => if w.calls.any CallStage.counted then none else some { w with drain := .lock }
  | .lock => if w.sendMu = none then some { w with sendMu := some .drain, drain := .close } else none
  | .close => some { w with jobsClosed := true, drain := .unlock }
  | .unlock => some { w with sendMu := none, drain := .waitWorkers }
  | .waitWorkers => if w.workers.all (· = .exited) then some { w with drain := .drained } else none
  | .none | .drained => none

def step : Action → Option World
  | .submit try_ nil => some { w with calls := w.calls ++ [if nil then .returned false else .begin try_] }
  | .advanceCall i choice => w.advanceCall cfg i choice
  | .worker k => w.advanceWorker k
  | .shutdown deadline => some { w with shutdowns := w.shutdowns ++ [⟨deadline, .once⟩] }
  | .advanceShutdown s => w.advanceShutdown s
  | .cancel s => w.cancel s
  | .drain => w.advanceDrain

end World

def initial (cfg : Config) : World where
  jobs := []
  jobsClosed := false
  panicked := false
  closed := false
  sendMu := none
  calls := []
  workers := List.replicate cfg.workers .receive
  shutdowns := []
  drain := .none
  ran := []
  finished := []

def machine (cfg : Config) : Machine World Action where
  init w := w = initial cfg
  step w a := if w.panicked then none else w.step cfg a

end IbexHarness.AsyncPool
