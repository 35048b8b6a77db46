import IbexHarness.Lib.KeyStore
import IbexHarness.Lib.Machine
import Mathlib.Data.Finset.Card

/-! `ConfirmEnrollment` and `CreateStepUp` of `services/auth/internal/service/totp.go` for one user, over the attempt
gates in Redis and in memory. -/

namespace IbexHarness.Totp

open Lib

def second : Nat := 1000000000

def totpMaxFailures : Nat := 5

def totpLockTTL : Nat := 15 * 60 * second

/-- Whether a command reached Redis in time, and whether its answer came back. -/
inductive Delivery where
  | answered
  | lost
  | unreached
deriving DecidableEq

/-- `totpAttemptGate`, at a time in nanoseconds; `allow` says whether the call may go on. -/
structure AttemptGate (σ : Type) where
  allow : Delivery → Nat → σ → Bool × σ
  fail : Delivery → Nat → σ → σ
  release : Delivery → Nat → σ → σ
  reset : Delivery → Nat → σ → σ

/-! ## Redis -/

structure RedisTOTPAttempts where
  maxFails : Nat
  lockTTL : Nat
  maxFails_pos : 0 < maxFails

def newRedisTOTPAttempts (maxFails lockTTL : Int) : RedisTOTPAttempts where
  maxFails := if maxFails < 1 then totpMaxFailures else maxFails.toNat
  lockTTL := if lockTTL ≤ 0 then totpLockTTL else lockTTL.toNat
  maxFails_pos := by
    split
    · exact Nat.zero_lt_succ 4
    · omega

structure Counter where
  value : Int
  expires : Nat

/-- The user's two keys: the counter, and the time the lock expires at. -/
structure RedisStore where
  fail : Option Counter
  lock : Option Nat

namespace RedisTOTPAttempts
variable (r : RedisTOTPAttempts)

/-- `int(r.lockTTL.Seconds())`, which the scripts pass to `EXPIRE` and `EX`. -/
def ttl : Nat := r.lockTTL / second * second

def locked (now : Nat) (s : RedisStore) : Bool := s.lock.any (live now)

def counter (now : Nat) (s : RedisStore) : Option Counter := s.fail.filter fun c => live now c.expires

def reserve (now : Nat) (s : RedisStore) : Int × RedisStore :=
  if locked now s then (-1, s)
  else
    let n := ((counter now s).map Counter.value).getD 0 + 1
    if r.maxFails < n then (-1, ⟨none, some (now + r.ttl)⟩)
    else (n, { s with fail := some ⟨n, now + r.ttl⟩ })

/-- `totpReleaseScript`; `DECR` keeps the time a counter expires at. -/
def unreserve (now : Nat) (s : RedisStore) : RedisStore :=
  let decremented := (counter now s).map fun c => { c with value := c.value - 1 }
  { s with fail := decremented.filter fun c => 0 < c.value }

def gate : AttemptGate RedisStore where
  allow d now s :=
    match d with
    | .answered => (0 ≤ (r.reserve now s).1, (r.reserve now s).2)
    | .lost => (false, (r.reserve now s).2)
    | .unreached => (false, s)
  fail _ _ s := s
  release d now s := if d = .unreached then s else unreserve now s
  reset d _ s := if d = .unreached then s else ⟨none, none⟩

end RedisTOTPAttempts

/-! ## Memory -/

structure MemoryTOTPAttempts where
  maxFails : Nat
  lockTTL : Nat

structure AttemptEntry where
  failures : Nat
  lockedUntil : Option Nat

namespace MemoryTOTPAttempts

def allow (now : Nat) (e : AttemptEntry) : Bool × AttemptEntry :=
  match e.lockedUntil with
  | none => (true, e)
  | some t => if now < t then (false, e) else (true, ⟨0, none⟩)

def gate (m : MemoryTOTPAttempts) : AttemptGate AttemptEntry where
  allow _ now e := allow now e
  fail _ now e :=
    if m.maxFails ≤ e.failures + 1 then ⟨0, some (now + m.lockTTL)⟩ else { e with failures := e.failures + 1 }
  release _ _ e := e
  reset _ _ _ := ⟨0, none⟩

end MemoryTOTPAttempts

/-! ## Calls -/

inductive Rpc where
  | confirmEnrollment
  | createStepUp

/-- Where a call is: `failing`, `releasing` and `resetting` are before the call of the gate. -/
inductive Phase where
  | idle
  | refused
  | allowed
  | loaded
  | confirming
  | failing
  | releasing
  | resetting
  | done
deriving DecidableEq

inductive Action where
  | wait (d : Nat)
  | allow (c : Nat) (d : Delivery)
  /-- `loadPendingSecret`, or the reads of `verifyConfirmedCode` -/
  | load (c : Nat) (ok : Bool)
  | check (c : Nat) (right : Bool)
  /-- `ConfirmCiphertext` -/
  | confirm (c : Nat) (ok : Bool)
  | fail (c : Nat) (d : Delivery)
  | release (c : Nat) (d : Delivery)
  | reset (c : Nat) (d : Delivery)

structure World (σ : Type) where
  now : Nat
  gate : σ
  phase : Nat → Phase

def Rpc.afterCheck (rpc : Rpc) (right : Bool) : Phase :=
  if right then
    match rpc with
    | .confirmEnrollment => .confirming
    | .createStepUp => .resetting
  else .failing

section
variable {σ : Type}

/-- The call goes on from a phase to another, with the gate as it leaves it. -/
def World.move (w : World σ) (c : Nat) (source target : Phase) (g : σ) : Option (World σ) :=
  if w.phase c = source then some { w with gate := g, phase := Function.update w.phase c target } else none

def World.step (calls : Nat → Rpc) (gate : AttemptGate σ) (w : World σ) : Action → Option (World σ)
  | .wait d => some { w with now := w.now + d }
  | .allow c d =>
    let answer := gate.allow d w.now w.gate
    w.move c .idle (if answer.1 then .allowed else .refused) answer.2
  | .load c ok => w.move c .allowed (if ok then .loaded else .releasing) w.gate
  | .check c right => w.move c .loaded ((calls c).afterCheck right) w.gate
  | .confirm c ok => w.move c .confirming (if ok then .resetting else .releasing) w.gate
  | .fail c d => w.move c .failing .done (gate.fail d w.now w.gate)
  | .release c d => w.move c .releasing .done (gate.release d w.now w.gate)
  | .reset c d => w.move c .resetting .done (gate.reset d w.now w.gate)

def machine (calls : Nat → Rpc) (gate : AttemptGate σ) (empty : σ) : Machine (World σ) Action where
  init w := w.gate = empty ∧ ∀ c, w.phase c = .idle
  step := World.step calls gate

/-- A check of the window, or a release, belongs to a call that `Allow` admitted in it. -/
def Action.Own (w₀ : World σ) : Action → Prop
  | .check c _ | .release c _ => w₀.phase c = .idle
  | _ => True

/-- Between `Allow` and `Fail`: the call may check a wrong code that is not counted yet. -/
def Phase.uncounted : Phase → Bool
  | .allowed | .loaded | .failing => true
  | _ => false

/-- No `Allow` of the run falls between that of another call and its `Fail`. -/
def Serial (calls : Nat → Rpc) (gate : AttemptGate σ) : World σ → List Action → Prop
  | _, [] => True
  | w, a :: as => (∀ c d, a = .allow c d → ∀ c', (w.phase c').uncounted = false) ∧
    ∀ w', w.step calls gate a = some w' → Serial calls gate w' as

end

def RedisTOTPAttempts.machine (calls : Nat → Rpc) (r : RedisTOTPAttempts) : Machine (World RedisStore) Action :=
  Totp.machine calls r.gate ⟨none, none⟩

def MemoryTOTPAttempts.machine (calls : Nat → Rpc) (m : MemoryTOTPAttempts) : Machine (World AttemptEntry) Action :=
  Totp.machine calls m.gate ⟨0, none⟩

def Action.isWrong : Action → Bool
  | .check _ right => !right
  | _ => false

/-- A verification succeeds: a right code, or the reset it leads to. -/
def Action.isSuccess : Action → Bool
  | .check _ right => right
  | .reset _ _ => true
  | _ => false

def wrongChecks (as : List Action) : Nat := as.countP Action.isWrong

end IbexHarness.Totp
