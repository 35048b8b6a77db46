import IbexHarness.Lib.Lru
import IbexHarness.Lib.Machine
import IbexHarness.Lib.Text
import IbexHarness.Lib.Tombstone

/-! `packages/authcache`: the bloom filter of invalid tokens, the token index and the organization index. -/

namespace IbexHarness.AuthCache

open Lib Function

section

abbrev Digest := Text

structure Config where
  lruMaxTTL : Int
  bloomExpectedItems : Nat
  lruMaxTTL_pos : 0 < lruMaxTTL
  bloomExpectedItems_pos : 1 ≤ bloomExpectedItems

def tokenExpirySkew : Int := 5000000000

structure Result where
  orgID : Uuid
  permissions : Int
  agentID : Uuid
  userID : Text
  tokenID : Text
  expiresAt : Option Int
  fromCache : Bool
deriving DecidableEq

def cloneResult (r : Result) (fromCache : Bool) : Result := { r with fromCache := fromCache }

def cacheTTL (cfg : Config) (res : Result) (now : Int) : Int :=
  match res.expiresAt with
  | none => cfg.lruMaxTTL
  | some e => if e - now - tokenExpirySkew < cfg.lruMaxTTL then e - now - tokenExpirySkew else cfg.lruMaxTTL

/-! ## The bloom filter -/

/-- Two generations of added digests. A test may also hit by chance. -/
structure BloomFilter where
  active : List Digest
  previous : List Digest
  adds : Nat

namespace BloomFilter

def empty : BloomFilter := ⟨[], [], 0⟩

def test (b : BloomFilter) (hash : Digest) (falsePositive : Bool) : Bool :=
  b.active.contains hash || b.previous.contains hash || falsePositive

def add (cfg : Config) (b : BloomFilter) (hash : Digest) : BloomFilter :=
  if b.adds + 1 < cfg.bloomExpectedItems then { b with active := hash :: b.active, adds := b.adds + 1 }
  else ⟨[], hash :: b.active, 0⟩

end BloomFilter

/-! ## The token index -/

structure TokenIndex where
  byID : Text → Option Digest
  tomb : Tombstones Text Int

namespace TokenIndex

def empty : TokenIndex := ⟨fun _ => none, .none⟩

def put (idx : TokenIndex) (tokenID : Text) (hash : Digest) (now : Int) : TokenIndex × Bool :=
  if tokenID = [] then (idx, true)
  else if idx.tomb.live tokenID now then (idx, false)
  else (⟨update idx.byID tokenID (some hash), idx.tomb.forget tokenID now⟩, true)

def isRevoked (idx : TokenIndex) (tokenID : Text) (now : Int) : Bool :=
  tokenID ≠ [] && idx.tomb.live tokenID now

def removeDigest (idx : TokenIndex) (hash : Digest) (tokenID : Text) : TokenIndex :=
  if tokenID ≠ [] ∧ idx.byID tokenID = some hash then { idx with byID := update idx.byID tokenID none }
  else idx

def revoke (idx : TokenIndex) (tombTTL : Int) (tokenID : Text) (now : Int) : TokenIndex × List Digest :=
  if tokenID = [] then (idx, [])
  else (⟨update idx.byID tokenID none, idx.tomb.bury tokenID (now + tombTTL)⟩, (idx.byID tokenID).toList)

end TokenIndex

/-! ## The organization index -/

structure OrgIndex where
  byOrg : Uuid → List Digest
  tomb : Tombstones Uuid Int

namespace OrgIndex

def empty : OrgIndex := ⟨fun _ => [], .none⟩

def put (idx : OrgIndex) (orgID : Uuid) (hash : Digest) (now : Int) : OrgIndex × Bool :=
  if orgID = 0 then (idx, true)
  else
    let tomb := idx.tomb.prune now
    if tomb.live orgID now then (⟨idx.byOrg, tomb⟩, false)
    else (⟨update idx.byOrg orgID ((idx.byOrg orgID).insert hash), tomb.forget orgID now⟩, true)

def isSuspended (idx : OrgIndex) (orgID : Uuid) (now : Int) : Bool :=
  orgID ≠ 0 && idx.tomb.live orgID now

def removeDigest (idx : OrgIndex) (orgID : Uuid) (hash : Digest) : OrgIndex :=
  if orgID = 0 then idx
  else { idx with byOrg := update idx.byOrg orgID ((idx.byOrg orgID).erase hash) }

def revoke (idx : OrgIndex) (tombTTL : Int) (orgID : Uuid) (now : Int) : OrgIndex × List Digest :=
  if orgID = 0 then (idx, [])
  else (⟨update idx.byOrg orgID [], (idx.tomb.prune now).bury orgID (now + tombTTL)⟩, idx.byOrg orgID)

end OrgIndex

end

/-! `packages/authcache/validator.go`. -/

/-- An entry of the LRU; `began` is the step at which its upstream validation began. -/
structure CachedEntry where
  result : Result
  expiresAt : Int
  began : Nat

inductive Subject where
  | token (tokenID : Text)
  | org (orgID : Uuid)
deriving DecidableEq

def Subject.valid : Subject → Bool
  | .token tokenID => tokenID ≠ []
  | .org orgID => orgID ≠ 0

def Result.concerns (r : Result) : Subject → Bool
  | .token tokenID => r.tokenID = tokenID
  | .org orgID => r.orgID = orgID

/-! ## Processes -/

/-- A comparison with the clock: `v.now().Before(entry.expiresAt)` or one half of `cacheBlocked`. -/
inductive Check where
  | expiry
  | token
  | org

/-- `lookupLRU`: the expiry, `cacheBlocked`, and `cacheBlocked` again after the clone. -/
def lookupChecks : List Check := [.expiry, .token, .org, .token, .org]

def addChecks : List Check := [.token, .org]

/-- A call that removes something: `lru.Get` of `dropCachedHash`, `removeDigest` of an index, `lru.Remove`. -/
inductive Removal where
  | drop (hash : Digest)
  | token (hash : Digest) (tokenID : Text)
  | org (orgID : Uuid) (hash : Digest)
  | lru (hash : Digest)

def onEvict (hash : Digest) (entry : CachedEntry) : List Removal :=
  [.token hash entry.result.tokenID, .org entry.result.orgID hash]

def evictRevoked (hash : Digest) (res : Result) : List Removal :=
  [.token hash res.tokenID, .org res.orgID hash, .lru hash]

inductive UpstreamError where
  | invalidToken
  | orgSuspended
  | unavailable
  | other

/-- Where a `Validate` is. `check` keeps the time of its `lru.Get`. -/
inductive Stage where
  | bloomTest
  | lruGet
  | check (entry : CachedEntry) (got : Int) (checks : List Check)
  | fetchUpstream
  | upstream (began : Nat)
  | bloomAdd
  | cacheTTL (began : Nat) (res : Result)
  | putToken (began : Nat) (res : Result) (ttl : Int)
  | putOrg (began : Nat) (res : Result) (ttl : Int)
  | stamp (began : Nat) (res : Result) (ttl : Int)
  | add (entry : CachedEntry)
  | recheck (entry : CachedEntry) (checks : List Check)
  | done (answer : Except UpstreamError Result)

structure Call where
  hash : Digest
  started : Nat
  removals : List Removal
  stage : Stage

structure Tombstone where
  subject : Subject
  began : Nat
  expiry : Int
deriving DecidableEq

/-- A process: a `Validate`, an `Invalidate`, or an invalidation before and after its tombstone. -/
inductive Process where
  | idle
  | validate (c : Call)
  | invalidate (removals : List Removal)
  | revoke (subject : Subject) (began : Nat)
  | revoked (t : Tombstone) (removals : List Removal)

/-- An answer from the LRU: when its call started and when its upstream validation began. -/
structure Served where
  result : Result
  started : Nat
  began : Nat
deriving DecidableEq

structure Invalidation where
  tombstone : Tombstone
  returned : Nat
deriving DecidableEq

structure World (procs : Nat) (cache : Lru Digest CachedEntry) where
  tick : Nat
  clock : Int
  clockAt : Nat → Int
  bloom : BloomFilter
  tokenIdx : TokenIndex
  orgIdx : OrgIndex
  lru : cache.State
  procs : Fin procs → Process
  -- every tombstone ever installed
  tombstones : List Tombstone
  served : List Served
  invalidations : List Invalidation

variable {procs : Nat} {cache : Lru Digest CachedEntry}

namespace World

def init : World procs cache :=
  ⟨0, 0, fun _ => 0, .empty, .empty, .empty, cache.empty, fun _ => .idle, [], [], []⟩

def setProc (w : World procs cache) (i : Fin procs) (p : Process) : World procs cache :=
  { w with procs := update w.procs i p }

def setStage (w : World procs cache) (i : Fin procs) (c : Call) (removals : List Removal) (stage : Stage) :
    World procs cache :=
  w.setProc i (.validate ⟨c.hash, c.started, removals, stage⟩)

def passes (w : World procs cache) (entry : CachedEntry) : Check → Bool
  | .expiry => w.clock < entry.expiresAt
  | .token => !w.tokenIdx.isRevoked entry.result.tokenID w.clock
  | .org => !w.orgIdx.isSuspended entry.result.orgID w.clock

def remove (w : World procs cache) : Removal → World procs cache × List Removal
  | .drop hash =>
    match cache.peek w.lru hash with
    | none => (w, [.lru hash])
    | some entry => ({ w with lru := cache.get w.lru hash }, onEvict hash entry ++ [.lru hash])
  | .token hash tokenID => ({ w with tokenIdx := w.tokenIdx.removeDigest hash tokenID }, [])
  | .org orgID hash => ({ w with orgIdx := w.orgIdx.removeDigest orgID hash }, [])
  | .lru hash =>
    match cache.peek w.lru hash with
    | none => (w, [])
    | some entry => ({ w with lru := cache.remove w.lru hash }, onEvict hash entry)

/-- A check of `lookupLRU`: eviction and a miss, the next check, or the answer. -/
def check (w : World procs cache) (i : Fin procs) (c : Call) (entry : CachedEntry) (got : Int) (k : Check)
    (ks : List Check) : World procs cache :=
  if !w.passes entry k then w.setStage i c (evictRevoked c.hash entry.result) .fetchUpstream
  else match ks with
    | [] => { w with served := ⟨entry.result, c.started, entry.began⟩ :: w.served }.setStage i c []
        (.done (.ok (cloneResult entry.result true)))
    | k' :: ks' => w.setStage i c [] (.check entry got (k' :: ks'))

def recheck (w : World procs cache) (i : Fin procs) (c : Call) (entry : CachedEntry) (k : Check)
    (ks : List Check) : World procs cache :=
  let answer : Stage := .done (.ok (cloneResult entry.result false))
  if !w.passes entry k then w.setStage i c (evictRevoked c.hash entry.result) answer
  else match ks with
    | [] => w.setStage i c [] answer
    | k' :: ks' => w.setStage i c [] (.recheck entry (k' :: ks'))

/-- `tokenIdx.revoke` or `orgIdx.revoke`, which installs the tombstone; `order` is the order in which the
digests are dropped. -/
def revoke (cfg : Config) (w : World procs cache) (i : Fin procs) (subject : Subject) (began : Nat)
    (order : List Digest) : Option (World procs cache) :=
  let t : Tombstone := ⟨subject, began, w.clock + cfg.lruMaxTTL⟩
  let w := { w with tombstones := t :: w.tombstones }.setProc i (.revoked t (order.map .drop))
  match subject with
  | .token tokenID =>
    let (idx, hashes) := w.tokenIdx.revoke cfg.lruMaxTTL tokenID w.clock
    if order.isPerm hashes then some { w with tokenIdx := idx } else none
  | .org orgID =>
    let (idx, hashes) := w.orgIdx.revoke cfg.lruMaxTTL orgID w.clock
    if order.isPerm hashes then some { w with orgIdx := idx } else none

end World

/-! ## The machine -/

inductive Action (procs : Nat) where
  | validate (i : Fin procs) (hash : Digest)
  | invalidate (i : Fin procs) (tokenHash : Digest)
  | invalidateBy (i : Fin procs) (subject : Subject)
  | bloomTest (i : Fin procs) (falsePositive : Bool)
  | upstreamReturns (i : Fin procs) (result : Except UpstreamError Result)
  | revoke (i : Fin procs) (order : List Digest)
  | advance (i : Fin procs)
  | elapse (d : Nat)

section Machine

variable (cfg : Config)

/-- The next step of a `Validate` with no removal to do, except those that need an input. -/
def World.advanceStage (w : World procs cache) (i : Fin procs) (c : Call) : Option (World procs cache) :=
  match c.stage with
  | .lruGet =>
    match cache.peek w.lru c.hash with
    | none => some (w.setStage i c [] .fetchUpstream)
    | some entry => some ({ w with lru := cache.get w.lru c.hash }.setStage i c [] (.check entry w.clock lookupChecks))
  | .check entry got (k :: ks) => some (w.check i c entry got k ks)
  | .fetchUpstream => some (w.setStage i c [] (.upstream w.tick))
  | .bloomAdd => some ({ w with bloom := w.bloom.add cfg c.hash }.setStage i c [] (.done (.error .invalidToken)))
  | .cacheTTL began res =>
    let ttl := cacheTTL cfg res w.clock
    if ttl ≤ 0 then some (w.setStage i c [] (.done (.ok (cloneResult res false))))
    else some (w.setStage i c [] (.putToken began res ttl))
  | .putToken began res ttl =>
    let (idx, ok) := w.tokenIdx.put res.tokenID c.hash w.clock
    some ({ w with tokenIdx := idx }.setStage i c []
      (if ok then .putOrg began res ttl else .done (.ok (cloneResult res false))))
  | .putOrg began res ttl =>
    let (idx, ok) := w.orgIdx.put res.orgID c.hash w.clock
    let w := { w with orgIdx := idx }
    if ok then some (w.setStage i c [] (.stamp began res ttl))
    else some (w.setStage i c [.token c.hash res.tokenID] (.done (.ok (cloneResult res false))))
  | .stamp began res ttl => some (w.setStage i c [] (.add ⟨cloneResult res false, w.clock + ttl, began⟩))
  | .add entry =>
    let (lru, out) := cache.add w.lru c.hash entry
    some ({ w with lru := lru }.setStage i c (out.elim [] fun p => onEvict p.1 p.2) (.recheck entry addChecks))
  | .recheck entry (k :: ks) => some (w.recheck i c entry k ks)
  | .bloomTest | .check _ _ [] | .upstream _ | .recheck _ [] | .done _ => none

def World.advance (w : World procs cache) (i : Fin procs) : Option (World procs cache) :=
  match w.procs i with
  | .idle | .revoke _ _ => none
  | .validate ⟨hash, started, r :: rs, stage⟩ =>
    let (w, more) := w.remove r
    some (w.setProc i (.validate ⟨hash, started, more ++ rs, stage⟩))
  | .validate ⟨hash, started, [], stage⟩ => w.advanceStage cfg i ⟨hash, started, [], stage⟩
  | .invalidate (r :: rs) =>
    let (w, more) := w.remove r
    some (w.setProc i (.invalidate (more ++ rs)))
  | .invalidate [] => some (w.setProc i .idle)
  | .revoked t (r :: rs) =>
    let (w, more) := w.remove r
    some (w.setProc i (.revoked t (more ++ rs)))
  | .revoked t [] => some ({ w with invalidations := ⟨t, w.tick⟩ :: w.invalidations }.setProc i .idle)

/-- A `Validate` that has not returned still has time left after `now`. -/
def Process.inTime (clockAt : Nat → Int) (now : Int) : Process → Bool
  | .validate ⟨_, _, [], .done _⟩ => true
  | .validate c => now < clockAt c.started + cfg.lruMaxTTL
  | _ => true

def World.act (w : World procs cache) : Action procs → Option (World procs cache)
  | .validate i hash =>
    match w.procs i with
    | .idle => some (w.setProc i (.validate ⟨hash, w.tick, [], .bloomTest⟩))
    | _ => none
  | .invalidate i tokenHash =>
    match w.procs i with
    | .idle => some (w.setProc i (.invalidate (if tokenHash = [] then [] else [.drop tokenHash])))
    | _ => none
  | .invalidateBy i subject =>
    match w.procs i with
    | .idle => if subject.valid then some (w.setProc i (.revoke subject w.tick)) else some w
    | _ => none
  | .bloomTest i falsePositive =>
    match w.procs i with
    | .validate ⟨hash, started, [], .bloomTest⟩ =>
      let stage := if w.bloom.test hash falsePositive then .fetchUpstream else .lruGet
      some (w.setProc i (.validate ⟨hash, started, [], stage⟩))
    | _ => none
  | .upstreamReturns i result =>
    match w.procs i with
    | .validate ⟨hash, started, [], .upstream began⟩ =>
      let stage := match result with
        | .ok res => .cacheTTL began res
        | .error .invalidToken => .bloomAdd
        | .error e => .done (.error e)
      some (w.setProc i (.validate ⟨hash, started, [], stage⟩))
    | _ => none
  | .revoke i order =>
    match w.procs i with
    | .revoke subject began => w.revoke cfg i subject began order
    | _ => none
  | .advance i => w.advance cfg i
  | .elapse d =>
    -- every `Validate` returns in less than `LRUMaxTTL`
    if ∀ i, (w.procs i).inTime cfg w.clockAt (w.clock + d) = true then some { w with clock := w.clock + d } else none

def World.record (w : World procs cache) : World procs cache :=
  { w with clockAt := update w.clockAt w.tick w.clock }

def World.step (w : World procs cache) (a : Action procs) : Option (World procs cache) :=
  (w.record.act cfg a).map fun w' => { w' with tick := w.tick + 1 }

def machine (procs : Nat) (cache : Lru Digest CachedEntry) : Machine (World procs cache) (Action procs) where
  init w := w = .init
  step := World.step cfg

end Machine

/-! ## Steady lookups -/

/-- When a lookup reads the clock, no tombstone of its entry has run out since its `lru.Get`. -/
def World.steady (w : World procs cache) : Action procs → Bool
  | .advance i =>
    match w.procs i with
    | .validate ⟨_, _, [], .check entry got _⟩ =>
      w.tombstones.all fun t => !entry.result.concerns t.subject || t.expiry ≤ got || w.clock < t.expiry
    | _ => true
  | _ => true

end IbexHarness.AuthCache
