import IbexHarness.Lib.KeyStore
import IbexHarness.Lib.Machine
import IbexHarness.Lib.Text

/-! `packages/idempotency/redis.go` with the part of the chat handler that finishes a claim. -/

namespace IbexHarness.Idempotency.Redis

open Lib

inductive State where
  | pending
  | completed
deriving DecidableEq

structure Record where
  version : Nat
  state : State
  fingerprint : Text
  status : Int
  body : List UInt8

structure Token where
  orgId : Uuid
  key : Text
deriving DecidableEq

inductive Outcome where
  | miss (record : Record)
  | hit (record : Record)
  | conflict (record : Record)
  | inProgress (record : Record)

structure PendingOwner where
  redisKey : Token
  fingerprint : Text

structure Config where
  ttl : Int
  pendingTTL : Int

def Config.withDefaults (c : Config) : Config where
  ttl := if c.ttl ≤ 0 then 86400000 else c.ttl
  pendingTTL := if c.pendingTTL ≤ 0 then 540000 else c.pendingTTL

structure RedisStore where
  ttl : Int
  pendingTTL : Int
  ttl_pos : 0 < ttl
  pendingTTL_pos : 0 < pendingTTL

def newRedisStore (cfg : Config) : RedisStore where
  ttl := cfg.withDefaults.ttl
  pendingTTL := cfg.withDefaults.pendingTTL
  ttl_pos := by
    simp only [Config.withDefaults]
    split <;> omega
  pendingTTL_pos := by
    simp only [Config.withDefaults]
    split <;> omega

def validateClaim (own : PendingOwner) : Bool :=
  own.redisKey.orgId != 0 && !(Text.trimSpace own.redisKey.key).isEmpty && !(Text.trimSpace own.fingerprint).isEmpty

def currentRecordVersion : Nat := 1

def pendingRecord (fingerprint : Text) : Record := ⟨currentRecordVersion, .pending, fingerprint, 0, []⟩

def completedRecord (fingerprint : Text) (status : Int) (body : List UInt8) : Record :=
  ⟨currentRecordVersion, .completed, fingerprint, status, body⟩

def decodeRecord (r : Record) : Option Record := if r.version = currentRecordVersion then some r else none

def inspect (own : PendingOwner) (r : Record) : Outcome :=
  if r.fingerprint ≠ own.fingerprint then .conflict r
  else
    match r.state with
    | .completed => .hit r
    | .pending => .inProgress r

def casMatches (own : PendingOwner) (r : Record) : Bool :=
  r.state == .pending && r.fingerprint == own.fingerprint

/-! ## Finishing a claim -/

inductive Finish where
  | commit (status : Int) (body : List UInt8)
  | release

def shouldCommit (status : Int) : Bool := status != 429 && !(500 ≤ status) && 200 ≤ status

def maxProviderResponseBytes : Nat := 4 * 1024 * 1024

def finish (status : Int) (body : List UInt8) : Finish :=
  if shouldCommit status && body.length ≤ maxProviderResponseBytes then .commit status body else .release

/-! ## Requests -/

/-- A claim granted to a request: when, and at which revision of the key. The request itself does not
know the revision. -/
structure Grant where
  own : PendingOwner
  rev : Nat
  since : Int

def Grant.key (g : Grant) : Token := g.own.redisKey

/-- Where `casPendingTx` stands; the revision is the one at the `WATCH`. -/
inductive CasStep where
  | watch
  | get (rev : Nat)
  | exec (rev : Nat)

inductive Proc where
  | idle
  | setNX (own : PendingOwner)
  | get (own : PendingOwner)
  | answered (out : Outcome)
  | failed
  | owner (g : Grant)
  | cas (g : Grant) (f : Finish) (try_ : Nat) (at_ : CasStep)
  | finished

def Proc.grant : Proc → Option Grant
  | .owner g | .cas g _ _ _ => some g
  | _ => none

inductive Event where
  /-- a claim returned a miss -/
  | granted (r : Nat) (key : Token) (rev : Nat)
  /-- a commit or release replaced or deleted the pending record written at a revision -/
  | settled (r : Nat) (key : Token) (rev : Nat)
deriving DecidableEq

structure World where
  clock : Int
  redis : KeyStore Token Record Int
  procs : Nat → Proc
  log : List Event

inductive Action where
  | tick (d : Nat)
  | claim (r : Nat) (own : PendingOwner)
  /-- `reply` is false when the answer is lost on the way back -/
  | setNX (r : Nat) (reply : Bool)
  | get (r : Nat)
  | finish (r : Nat) (status : Int) (body : List UInt8)
  | abandon (r : Nat)
  | watch (r : Nat)
  | casGet (r : Nat)
  | exec (r : Nat)
  /-- a command of the request fails before it reaches Redis -/
  | fail (r : Nat)

namespace World

def setProc (w : World) (r : Nat) (p : Proc) : World := { w with procs := Function.update w.procs r p }

def tryClaimPending (s : RedisStore) (w : World) (r : Nat) (own : PendingOwner) (reply : Bool) : World :=
  match w.redis.setNX w.clock own.redisKey (pendingRecord own.fingerprint) (w.clock + s.pendingTTL) with
  | some redis =>
    let w' := { w with redis := redis }
    let g : Grant := ⟨own, redis.rev own.redisKey, w.clock⟩
    if reply then { w' with log := .granted r g.key g.rev :: w.log }.setProc r (.owner g) else w'.setProc r .failed
  | none => w.setProc r (if reply then .get own else .failed)

def inspectExisting (w : World) (r : Nat) (own : PendingOwner) : World :=
  match w.redis.get w.clock own.redisKey with
  | none => w.setProc r (.setNX own)
  | some raw =>
    match decodeRecord raw with
    | some rec => w.setProc r (.answered (inspect own rec))
    | none => w.setProc r .failed

def casGet (w : World) (r : Nat) (g : Grant) (f : Finish) (try_ rev : Nat) : World :=
  match w.redis.get w.clock g.key with
  | none => w.setProc r .finished
  | some raw =>
    match decodeRecord raw with
    | some rec => w.setProc r (if casMatches g.own rec then .cas g f try_ (.exec rev) else .finished)
    | none => w.setProc r .finished

def mutate (s : RedisStore) (w : World) (g : Grant) : Finish → KeyStore Token Record Int
  | .commit status body => w.redis.set g.key (completedRecord g.own.fingerprint status body) (w.clock + s.ttl)
  | .release => w.redis.del g.key

/-- The `EXEC`: it fails if the watched key was written or has expired, and `casPending` tries again. -/
def exec (s : RedisStore) (w : World) (r : Nat) (g : Grant) (f : Finish) (try_ rev : Nat) : World :=
  if w.redis.rev g.key = rev ∧ (w.redis.get w.clock g.key).isSome then
    { w with redis := w.mutate s g f, log := .settled r g.key rev :: w.log }.setProc r .finished
  else w.setProc r (if try_ + 1 < 3 then .cas g f (try_ + 1) .watch else .finished)

def fail (w : World) (r : Nat) : Option World :=
  match w.procs r with
  | .setNX _ | .get _ => some (w.setProc r .failed)
  | .cas _ _ _ _ => some (w.setProc r .finished)
  | _ => none

def step (s : RedisStore) (w : World) : Action → Option World
  | .tick d => some { w with clock := w.clock + d }
  | .claim r own =>
    match w.procs r with
    | .idle => some (w.setProc r (if validateClaim own then .setNX own else .failed))
    | _ => none
  | .setNX r reply =>
    match w.procs r with
    | .setNX own => some (w.tryClaimPending s r own reply)
    | _ => none
  | .get r =>
    match w.procs r with
    | .get own => some (w.inspectExisting r own)
    | _ => none
  | .finish r status body =>
    match w.procs r with
    | .owner g => some (w.setProc r (.cas g (Redis.finish status body) 0 .watch))
    | _ => none
  | .abandon r =>
    match w.procs r with
    | .owner g => some (w.setProc r (.cas g .release 0 .watch))
    | _ => none
  | .watch r =>
    match w.procs r with
    | .cas g f n .watch => some (w.setProc r (.cas g f n (.get (w.redis.rev g.key))))
    | _ => none
  | .casGet r =>
    match w.procs r with
    | .cas g f n (.get rev) => some (w.casGet r g f n rev)
    | _ => none
  | .exec r =>
    match w.procs r with
    | .cas g f n (.exec rev) => some (w.exec s r g f n rev)
    | _ => none
  | .fail r => w.fail r

def unexpired (s : RedisStore) (w : World) (g : Grant) : Bool := w.clock < g.since + s.pendingTTL

/-- No commit or release finds its key pending under its fingerprint after its own claim has expired. -/
def timely (s : RedisStore) (w : World) : Action → Bool
  | .exec r =>
    match (w.procs r).grant with
    | some g => w.unexpired s g || !(w.redis.get w.clock g.key).any (casMatches g.own)
    | none => true
  | _ => true

end World

def machine (s : RedisStore) : Machine World Action where
  init w := w.redis = KeyStore.empty ∧ w.procs = (fun _ => .idle) ∧ w.log = []
  step := World.step s

end IbexHarness.Idempotency.Redis
