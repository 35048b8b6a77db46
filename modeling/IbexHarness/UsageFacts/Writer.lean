import IbexHarness.Lib.Machine
import IbexHarness.Lib.Text
import Mathlib.Algebra.Ring.Int.Defs

/-! `packages/billing/factwriter.go`, and `sum_spent` of the worker, which reads what is stored. -/

namespace IbexHarness.UsageFacts

open Lib

/-! ## Facts -/

structure UsageFact where
  requestID : Text
  orgID : Nat
  agentID : Nat
  provider : Text
  model : Text
  originalModel : Option Text
  fallbackModel : Option Text
  fallbackReason : Text
  inputTokens : UInt32
  outputTokens : UInt32
  totalTokens : UInt32
  estimatedCostCents : Int
  rateCardVersion : Text
  completeness : Text
  occurredAt : Int
deriving DecidableEq

def nilUUID : Nat := 0

def zeroTime : Int := -62135596800000

inductive WriteError where
  | missingIDs
  | requestIDTooLong
  | missingOccurredAt
  | providerAndModelRequired
  | providerOrModelTooLong
  | fallbackReasonTooLong
  | originalModelTooLong
  | fallbackModelTooLong
  | rateCardVersion
  | completeness (value : Text)
  | tokenSumOverflow
  | totalTokens
  | negativeCost
  | closed
  | bufferFull

def require (ok : Bool) (e : WriteError) : Except WriteError Unit := if ok then .ok () else .error e

def validateFactIDs (f : UsageFact) : Except WriteError Unit := do
  require (!f.requestID.isEmpty && f.orgID ≠ nilUUID && f.agentID ≠ nilUUID) .missingIDs
  require (f.requestID.byteLength ≤ 128) .requestIDTooLong
  require (f.occurredAt ≠ zeroTime) .missingOccurredAt

def validateOptionalModelLen (model : Option Text) (e : WriteError) : Except WriteError Unit :=
  require (model.all fun m => m.byteLength ≤ 256) e

def validateFactModels (f : UsageFact) : Except WriteError Unit := do
  require (!f.provider.trimSpace.isEmpty && !f.model.trimSpace.isEmpty) .providerAndModelRequired
  require (f.provider.byteLength ≤ 64 && f.model.byteLength ≤ 256) .providerOrModelTooLong
  require (f.fallbackReason.byteLength ≤ 128) .fallbackReasonTooLong
  validateOptionalModelLen f.originalModel .originalModelTooLong
  validateOptionalModelLen f.fallbackModel .fallbackModelTooLong
  require (!f.rateCardVersion.isEmpty && f.rateCardVersion.byteLength ≤ 64) .rateCardVersion

def addUint32Checked (a b : UInt32) : Option UInt32 :=
  if a.toNat + b.toNat < 2 ^ 32 then some (a + b) else none

def allowedCompleteness : List Text := ["partial".toList, "complete".toList]

def validateFactTokens (f : UsageFact) : Except WriteError Unit := do
  let completeness := if f.completeness.isEmpty then "partial".toList else f.completeness
  require (completeness ∈ allowedCompleteness) (.completeness f.completeness)
  match addUint32Checked f.inputTokens f.outputTokens with
  | none => .error .tokenSumOverflow
  | some sum =>
    require (f.totalTokens = sum) .totalTokens
    require (0 ≤ f.estimatedCostCents) .negativeCost

def validateUsageFact (f : UsageFact) : Except WriteError Unit := do
  validateFactIDs f
  validateFactModels f
  validateFactTokens f

/-! ## The writer -/

structure UsageFactConfig where
  maxBatchSize : Int
  maxBufferSize : Int

def UsageFactConfig.applyDefaults (c : UsageFactConfig) : UsageFactConfig where
  maxBatchSize := if c.maxBatchSize ≤ 0 then 100 else c.maxBatchSize
  maxBufferSize := if c.maxBufferSize ≤ 0 then 10000 else c.maxBufferSize

inductive FlushStage where
  /-- `takeBuffer` -/
  | take
  /-- `insertRows` -/
  | insert (rows : List UsageFact)
  /-- `requeueFront` -/
  | requeue (rows : List UsageFact)
  | returned (ok : Bool)
deriving DecidableEq

/-- The goroutine `loop`; `flushOnce` waits for its flush in every case. -/
inductive LoopStage where
  | select
  | flushOnce
  | flush (stage : FlushStage)
  | exited
deriving DecidableEq

inductive ShutdownStage where
  | idle
  | start
  /-- `w.wg.Wait()` -/
  | waitLoop
  /-- `w.flushWG.Wait()` -/
  | waitFlush
  | flush (stage : FlushStage)
  /-- `w.ins.Close()` -/
  | close (flushed : Bool)
  | returned (ok : Bool)
deriving DecidableEq

structure World where
  buf : List UsageFact
  closed : Bool
  /-- a signal waits in `flushCh` -/
  signal : Bool
  loop : LoopStage
  shutdowns : Nat → ShutdownStage
  nextShutdown : Nat
  /-- the call of `Shutdown` that has closed the writer -/
  first : Option Nat
  /-- facts whose `Write` returned nil -/
  accepted : List UsageFact
  stored : List UsageFact
  /-- facts that a requeue reported to `onDrop` -/
  dropped : List UsageFact

/-- What `InsertUsageFacts` does: an error may come after rows have been stored. -/
inductive InsertResult where
  | ok
  | error (stored : Nat)

inductive Action where
  | write (f : UsageFact)
  /-- the ticker fires -/
  | tick
  /-- the loop receives from `flushCh` -/
  | receive
  /-- the loop receives from `stopCh` -/
  | stop
  | loop (r : InsertResult)
  | shutdown
  | advanceShutdown (i : Nat) (r : InsertResult) (closed : Bool)

namespace World

variable (cfg : UsageFactConfig) (w : World)

def write (f : UsageFact) : Except WriteError World :=
  match validateUsageFact f with
  | .error e => .error e
  | .ok () =>
    if w.closed then .error .closed
    else if cfg.maxBufferSize ≤ w.buf.length then .error .bufferFull
    else
      let buf := w.buf ++ [f]
      .ok { w with buf, signal := w.signal || cfg.maxBatchSize ≤ buf.length, accepted := w.accepted ++ [f] }

def requeueFront (rows : List UsageFact) : World :=
  let combined := rows ++ w.buf
  { w with
    buf := combined.take cfg.maxBufferSize.toNat
    dropped := w.dropped ++ combined.drop cfg.maxBufferSize.toNat }

def flushStep (r : InsertResult) : FlushStage → Option (World × FlushStage)
  | .take => if w.buf = [] then some (w, .returned true) else some ({ w with buf := [] }, .insert w.buf)
  | .insert rows =>
    match r with
    | .ok => some ({ w with stored := w.stored ++ rows }, .returned true)
    | .error n => some ({ w with stored := w.stored ++ rows.take n }, .requeue rows)
  | .requeue rows => some (w.requeueFront cfg rows, .returned false)
  | .returned _ => none

def loopStep (r : InsertResult) : Option World :=
  match w.loop with
  | .flushOnce => some { w with loop := if w.closed then .select else .flush .take }
  | .flush (.returned _) => some { w with loop := .select }
  | .flush stage => (w.flushStep cfg r stage).map fun p => { p.1 with loop := .flush p.2 }
  | .select | .exited => none

def setShutdown (i : Nat) (stage : ShutdownStage) : World :=
  { w with shutdowns := Function.update w.shutdowns i stage }

def flushed : Bool := match w.loop with
  | .flush (.returned _) => true
  | .flush _ => false
  | .select | .flushOnce | .exited => true

def shutdownStep (i : Nat) (r : InsertResult) (closed : Bool) : Option World :=
  match w.shutdowns i with
  | .start =>
    if w.closed then some (w.setShutdown i (.returned true))
    else some ({ w with closed := true, first := some i }.setShutdown i .waitLoop)
  | .waitLoop => if w.loop = .exited then some (w.setShutdown i .waitFlush) else none
  | .waitFlush => if w.flushed then some (w.setShutdown i (.flush .take)) else none
  | .flush (.returned ok) => some (w.setShutdown i (.close ok))
  | .flush stage => (w.flushStep cfg r stage).map fun p => p.1.setShutdown i (.flush p.2)
  | .close ok => some (w.setShutdown i (.returned (ok && closed)))
  | .idle | .returned _ => none

def step : Action → Option World
  | .write f =>
    match w.write cfg f with
    | .ok w' => some w'
    | .error _ => some w
  | .tick => if w.loop = .select then some { w with loop := .flushOnce } else none
  | .receive => if w.loop = .select ∧ w.signal then some { w with loop := .flushOnce, signal := false } else none
  | .stop => if w.loop = .select ∧ w.closed then some { w with loop := .exited } else none
  | .loop r => w.loopStep cfg r
  | .shutdown => some { w.setShutdown w.nextShutdown .start with nextShutdown := w.nextShutdown + 1 }
  | .advanceShutdown i r closed => w.shutdownStep cfg i r closed

def initial : World where
  buf := []
  closed := false
  signal := false
  loop := .select
  shutdowns _ := .idle
  nextShutdown := 0
  first := none
  accepted := []
  stored := []
  dropped := []

end World

def machine (cfg : UsageFactConfig) : Machine World Action where
  init w := w = World.initial
  step := World.step cfg.applyDefaults

/-! ## The rollup -/

def sumSpent (rows : List UsageFact) (orgID : Nat) (periodStart periodEnd : Int) : Int :=
  max ((rows.filter fun f => f.orgID = orgID && periodStart ≤ f.occurredAt && f.occurredAt < periodEnd).map
    UsageFact.estimatedCostCents).sum 0

end IbexHarness.UsageFacts
