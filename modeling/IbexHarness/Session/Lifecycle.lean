import IbexHarness.Lib.KeyStore
import IbexHarness.Lib.Machine
import IbexHarness.Lib.Text
import Mathlib.Algebra.Order.Floor.Ring

/-! `services/auth/internal/sessionjwt`: the claims of a token, its issue and its verification. -/

namespace IbexHarness.Session

open Lib

section

inductive SessionKind where
  | access
  | refresh
  | stepUp
deriving DecidableEq

structure Claims where
  issuer : Text
  audience : Text
  subject : Text
  orgId : Text
  permissions : BitVec 64
  sessionKind : SessionKind
  issuedAt : Int
  notBefore : Int
  expiresAt : Int
  jti : Text
  familyId : Text
  sessionId : Text
  action : Text
deriving DecidableEq

structure RawToken where
  kid : Text
  key : Nat
  claims : Claims
deriving DecidableEq

inductive Error where
  | invalidToken
  | expired
  | emptySessionId
  /-- an error of the store -/
  | store

structure Issuer (τ : Type*) where
  key : Nat
  issuer : Text
  audience : Text
  accessTTL : τ
  refreshTTL : τ
  stepUpTTL : τ
  keyId : Text

variable {τ : Type*} [Field τ] [LinearOrder τ] [FloorRing τ]

def unix (t : τ) : Int := ⌊t⌋

/-! ## Issue -/

def Issuer.sign (i : Issuer τ) (c : Claims) : RawToken := ⟨i.keyId, i.key, c⟩

structure IssuePairParams where
  subject : Text
  orgId : Text
  permissions : BitVec 64
  familyId : Text
  sessionId : Text

structure FreshIds where
  accessJti : Text
  refreshJti : Text
  familyId : Text
  sessionId : Text

def orFresh (s fresh : Text) : Text := if (Text.trimSpace s).isEmpty then fresh else Text.trimSpace s

def Issuer.issuePair (i : Issuer τ) (p : IssuePairParams) (ids : FreshIds) (now : τ) : RawToken × RawToken :=
  let claims (kind : SessionKind) (exp : Int) (jti : Text) : Claims :=
    { issuer := i.issuer, audience := i.audience, subject := p.subject, orgId := p.orgId
      permissions := p.permissions, sessionKind := kind, issuedAt := unix now, notBefore := unix now
      expiresAt := exp, jti := jti, familyId := orFresh p.familyId ids.familyId
      sessionId := orFresh p.sessionId ids.sessionId, action := [] }
  (i.sign (claims .access (unix (now + i.accessTTL)) ids.accessJti),
    i.sign (claims .refresh (unix (now + i.refreshTTL)) ids.refreshJti))

structure IssueStepUpParams where
  subject : Text
  orgId : Text
  permissions : BitVec 64
  sessionId : Text
  action : Text

def Issuer.issueStepUp (i : Issuer τ) (p : IssueStepUpParams) (jti sessionId : Text) (now : τ) : RawToken :=
  i.sign
    { issuer := i.issuer, audience := i.audience, subject := p.subject, orgId := p.orgId
      permissions := p.permissions, sessionKind := .stepUp, issuedAt := unix now, notBefore := unix now
      expiresAt := unix (now + i.stepUpTTL), jti := jti, familyId := [], sessionId := orFresh p.sessionId sessionId
      action := p.action }

/-! ## Verification -/

def hasRequiredIdentityClaims (c : Claims) : Bool :=
  !c.subject.isEmpty && !c.orgId.isEmpty && !c.jti.isEmpty && 0 < c.issuedAt

def validateKindAndIdentity (c : Claims) (kind : SessionKind) : Bool :=
  c.sessionKind == kind && hasRequiredIdentityClaims c && !c.sessionId.isEmpty

def validateClaimTimestamps (c : Claims) (kind : SessionKind) (now : τ) : Except Error Unit :=
  if c.expiresAt < unix now then .error .expired
  else if unix now < c.notBefore then .error .invalidToken
  else if kind = .refresh ∧ c.familyId = [] then .error .invalidToken
  else .ok ()

def Issuer.verify (i : Issuer τ) (tok : RawToken) (kind : SessionKind) (now : τ) : Except Error Claims :=
  let kid := Text.trimSpace tok.kid
  if kid.isEmpty ∨ (!i.keyId.isEmpty ∧ kid ≠ i.keyId) then .error .invalidToken
  else if tok.key ≠ i.key then .error .invalidToken
  else if tok.claims.issuer ≠ i.issuer ∨ tok.claims.audience ≠ i.audience then .error .invalidToken
  else if !validateKindAndIdentity tok.claims kind then .error .invalidToken
  else
    match validateClaimTimestamps tok.claims kind now with
    | .error e => .error e
    | .ok () => .ok tok.claims

def validateRefreshClaims (c : Claims) : Bool :=
  !c.subject.isEmpty && !c.orgId.isEmpty && !c.jti.isEmpty && !c.familyId.isEmpty

def Issuer.verifyRefreshToken (i : Issuer τ) (tok : RawToken) (now : τ) : Except Error Claims :=
  match i.verify tok .refresh now with
  | .error e => .error e
  | .ok c => if validateRefreshClaims c then .ok c else .error .invalidToken

structure StepUpExpectations where
  subject : Text
  orgId : Text
  sessionId : Text
  action : Text
  requiredPermission : BitVec 64

def matchesStepUpExpectations (c : Claims) (e : StepUpExpectations) : Bool :=
  c.subject == e.subject && c.orgId == e.orgId && c.sessionId == e.sessionId && c.action == e.action &&
    (e.requiredPermission == 0 || c.permissions &&& e.requiredPermission == e.requiredPermission)

/-! ## Lifetimes -/

def refreshRemainingTTL (c : Claims) (now : τ) : τ := if c.expiresAt - now ≤ 0 then 1 else c.expiresAt - now

def replayRevokeTTL (remaining configured : τ) : τ := if configured < remaining then remaining else configured

end

/-! `RefreshPair` and `ConsumeStepUp` over `RedisJTIStore`. -/

inductive Key where
  | refreshJti (jti : Text)
  | familyRevoked (familyId : Text)
  | sessionRevoked (sessionId : Text)
  | stepUpJti (jti : Text)
deriving DecidableEq

inductive Use where
  | refresh
  | stepUp
deriving DecidableEq

def Use.key (u : Use) (c : Claims) : Key :=
  match u with
  | .refresh => .refreshJti c.jti
  | .stepUp => .stepUpJti c.jti

/-- Where a call stands. `ttlAt` is when it computed the time to live of the marker. -/
inductive Proc (τ : Type*) where
  | idle
  | refreshTTL (issuer : Nat) (c : Claims)
  | refreshSession (issuer : Nat) (c : Claims) (ttlAt : τ)
  | refreshFamily (issuer : Nat) (c : Claims) (ttlAt : τ)
  | stepUpSession (c : Claims)
  | stepUpTTL (c : Claims)
  | consume (issuer : Nat) (u : Use) (c : Claims) (ttlAt : τ)
  /-- a refresh token was presented again -/
  | revoke (issuer : Nat) (c : Claims) (ttlAt : τ)
  | issue (issuer : Nat) (c : Claims)
  | succeeded
  | failed (e : Error)

inductive Event (τ : Type*) where
  /-- the marker of a token was set: the call succeeds -/
  | consumed (u : Use) (c : Claims) (time : τ)

structure World (τ : Type*) where
  clock : τ
  redis : KeyStore Key Unit τ
  procs : Nat → Proc τ
  issued : List RawToken
  log : List (Event τ)

inductive Action (τ : Type*) where
  | tick (d : τ)
  | login (issuer : Nat) (p : IssuePairParams) (ids : FreshIds)
  | stepUp (issuer : Nat) (p : IssueStepUpParams) (jti sessionId : Text)
  | logout (issuer : Nat) (sessionId familyId : Text)
  | refreshPair (r issuer : Nat) (tok : RawToken)
  | consumeStepUp (r issuer : Nat) (tok : RawToken) (expect : StepUpExpectations)
  /-- the next step of a call; `ids` are used when it issues tokens -/
  | advance (r : Nat) (ids : FreshIds)
  /-- a call ends because the store cannot be reached -/
  | fail (r : Nat)

variable {τ : Type*} [Field τ] [LinearOrder τ] [FloorRing τ]

/-- The lifetime of revocation markers: whole milliseconds, at least one. -/
def wholeMilliseconds (ttl : τ) : τ := (max ⌊ttl * 1000⌋ 1 : Int) / 1000

def revokeSessionAndFamily (s : KeyStore Key Unit τ) (sessionId familyId : Text) (ttl now : τ) :
    KeyStore Key Unit τ :=
  let ttl := if ttl ≤ 0 then 1 else ttl
  if familyId = [] then s.set (.sessionRevoked sessionId) () (now + ttl)
  else
    (s.set (.sessionRevoked sessionId) () (now + wholeMilliseconds ttl)).set (.familyRevoked familyId) ()
      (now + wholeMilliseconds ttl)

namespace World

def setProc (w : World τ) (r : Nat) (p : Proc τ) : World τ := { w with procs := Function.update w.procs r p }

def familyIsRevoked (w : World τ) (familyId : Text) : Bool :=
  familyId ≠ [] && (w.redis.get w.clock (.familyRevoked familyId)).isSome

def sessionIsRevoked (w : World τ) (sessionId : Text) : Bool :=
  (w.redis.get w.clock (.sessionRevoked sessionId)).isSome

def start (w : World τ) (r : Nat) (res : Except Error (Proc τ)) : Option (World τ) :=
  match w.procs r with
  | .idle =>
    match res with
    | .ok p => some (w.setProc r p)
    | .error e => some (w.setProc r (.failed e))
  | _ => none

/-- `ConsumeOnce`, `ConsumeStepUp` of the store: `SET NX` with the time to live. -/
def consumeOnce (w : World τ) (r issuer : Nat) (u : Use) (c : Claims) (ttlAt : τ) : World τ :=
  match w.redis.setNX w.clock (u.key c) () (w.clock + refreshRemainingTTL c ttlAt) with
  | some redis =>
    { w with redis := redis, log := .consumed u c w.clock :: w.log }.setProc r
      (match u with
      | .refresh => .issue issuer c
      | .stepUp => .succeeded)
  | none =>
    w.setProc r
      (match u with
      | .refresh => .revoke issuer c ttlAt
      | .stepUp => .failed .invalidToken)

def advance (issuers : Nat → Issuer τ) (w : World τ) (r : Nat) (ids : FreshIds) : Option (World τ) :=
  match w.procs r with
  | .refreshTTL i c => some (w.setProc r (.refreshSession i c w.clock))
  | .refreshSession i c ttlAt =>
    some (w.setProc r (if w.sessionIsRevoked c.sessionId then .failed .invalidToken else .refreshFamily i c ttlAt))
  | .refreshFamily i c ttlAt =>
    some (w.setProc r (if w.familyIsRevoked c.familyId then .failed .invalidToken else .consume i .refresh c ttlAt))
  | .stepUpSession c =>
    some (w.setProc r (if w.sessionIsRevoked c.sessionId then .failed .invalidToken else .stepUpTTL c))
  | .stepUpTTL c => some (w.setProc r (.consume 0 .stepUp c w.clock))
  | .consume i u c ttlAt => some (w.consumeOnce r i u c ttlAt)
  | .revoke i c ttlAt =>
    if c.sessionId = [] then some (w.setProc r (.failed .emptySessionId))
    else
      let ttl := replayRevokeTTL (refreshRemainingTTL c ttlAt) (issuers i).refreshTTL
      some ({ w with redis := revokeSessionAndFamily w.redis c.sessionId c.familyId ttl w.clock }.setProc r
        (.failed .invalidToken))
  | .issue i c =>
    let (access, refresh) := (issuers i).issuePair ⟨c.subject, c.orgId, c.permissions, c.familyId, c.sessionId⟩ ids
      w.clock
    some ({ w with issued := access :: refresh :: w.issued }.setProc r .succeeded)
  | _ => none

def step (issuers : Nat → Issuer τ) (w : World τ) : Action τ → Option (World τ)
  | .tick d => if 0 ≤ d then some { w with clock := w.clock + d } else none
  | .login i p ids =>
    let (access, refresh) := (issuers i).issuePair p ids w.clock
    some { w with issued := access :: refresh :: w.issued }
  | .stepUp i p jti sessionId =>
    some { w with issued := (issuers i).issueStepUp p jti sessionId w.clock :: w.issued }
  | .logout i sessionId familyId =>
    if sessionId = [] then none
    else some { w with
      redis := revokeSessionAndFamily w.redis sessionId familyId (issuers i).refreshTTL w.clock }
  | .refreshPair r i tok => w.start r (((issuers i).verifyRefreshToken tok w.clock).map (.refreshTTL i))
  | .consumeStepUp r i tok expect =>
    w.start r
      (match (issuers i).verify tok .stepUp w.clock with
      | .error e => .error e
      | .ok c => if matchesStepUpExpectations c expect then .ok (.stepUpSession c) else .error .invalidToken)
  | .advance r ids => w.advance issuers r ids
  | .fail r =>
    match w.procs r with
    | .idle | .succeeded | .failed _ => none
    | _ => some (w.setProc r (.failed .store))

end World

def Event.isUse (u : Use) (c : Claims) : Event τ → Bool
  | .consumed u' c' _ => u' == u && c' == c

def World.uses (w : World τ) (u : Use) (c : Claims) : Nat := w.log.countP (Event.isUse u c)

def machine (issuers : Nat → Issuer τ) : Machine (World τ) (Action τ) where
  init w := w.redis = KeyStore.empty ∧ w.procs = (fun _ => .idle) ∧ w.log = []
  step := World.step issuers

def World.usedEarly (w : World τ) (u : Use) (c : Claims) : Bool :=
  w.log.any fun ev => match ev with
    | .consumed u' c' t => u' == u && c' == c && t < c.expiresAt

/-- No marker is set after the expiry of its token, except within the second in which the token is still
accepted and then only by a call that has computed its time to live in it, for a token not used before. -/
def World.timely (w : World τ) : Action τ → Bool
  | .advance r _ =>
    match w.procs r with
    | .consume _ u c ttlAt =>
      w.clock < c.expiresAt || (c.expiresAt ≤ ttlAt && w.clock < c.expiresAt + 1 && !w.usedEarly u c)
    | _ => true
  | _ => true

end IbexHarness.Session
