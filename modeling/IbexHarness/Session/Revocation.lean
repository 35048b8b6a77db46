import IbexHarness.Session.Lifecycle

/-! `ValidateAccess` and `RevokeSession` beside the calls of `RefreshPair` and `ConsumeStepUp`. -/

namespace IbexHarness.Session

open Lib Function

/-- Where a `ValidateAccess` stands; `started` is the step at which it verified its token. -/
inductive AccessCall where
  | idle
  | session (c : Claims) (started : Nat)
  | family (c : Claims) (started : Nat)
  | access (c : Claims) (started : Nat)
  | succeeded (c : Claims)
  | failed (e : Error)

inductive RevokeCall where
  | idle
  | markers (issuer : Nat) (sessionId familyId accessJti : Text)
  | access (issuer : Nat) (sessionId accessJti : Text)

structure Revocation where
  sessionId : Text
  completed : Nat
deriving DecidableEq

/-- A `RefreshPair`, `ConsumeStepUp` or `ValidateAccess` that succeeded. -/
structure Success where
  sessionId : Text
  started : Nat
deriving DecidableEq

structure System (τ : Type*) where
  tick : Nat
  base : World τ
  -- the steps at which the calls of `base` started
  started : Nat → Nat
  accessRevoked : KeyStore Text Unit τ
  accessCalls : Nat → AccessCall
  revokeCalls : Nat → RevokeCall
  revocations : List Revocation
  successes : List Success

inductive SystemAction (τ : Type*) where
  | base (a : Action τ)
  | validateAccess (r issuer : Nat) (tok : RawToken)
  | advanceAccess (r : Nat)
  | failAccess (r : Nat)
  | revokeSession (r issuer : Nat) (sessionId familyId accessJti : Text)
  | advanceRevoke (r : Nat)
  | failRevoke (r : Nat)

/-- The tokens a call presents were issued; `RevokeSession` takes the place of `logout`. -/
def Action.admissible {τ : Type*} (issued : List RawToken) : Action τ → Bool
  | .refreshPair _ _ tok | .consumeStepUp _ _ tok _ => tok ∈ issued
  | .logout _ _ _ => false
  | .tick _ | .login _ _ _ | .stepUp _ _ _ _ | .advance _ _ | .fail _ => true

namespace System

variable {τ : Type*}

def startedBy (w : System τ) : Action τ → Nat → Nat
  | .refreshPair r _ _ | .consumeStepUp r _ _ _ => update w.started r w.tick
  | _ => w.started

/-- The success a call of `base` has with its next step, from the stages before and after it. -/
def succeededBy (started : Nat) : Proc τ → Proc τ → List Success
  | .issue _ c, .succeeded | .consume _ .stepUp c _, .succeeded => [⟨c.sessionId, started⟩]
  | _, _ => []

def revokedBy (tick : Nat) : Proc τ → Proc τ → List Revocation
  | .revoke _ c _, .failed .invalidToken => [⟨c.sessionId, tick⟩]
  | _, _ => []

def finish (w : System τ) (b : World τ) : Action τ → System τ
  | .advance r _ =>
    { w with
      base := b
      successes := succeededBy (w.started r) (w.base.procs r) (b.procs r) ++ w.successes
      revocations := revokedBy w.tick (w.base.procs r) (b.procs r) ++ w.revocations }
  | a => { w with base := b, started := w.startedBy a }

def setAccess (w : System τ) (r : Nat) (p : AccessCall) : System τ :=
  { w with accessCalls := update w.accessCalls r p }

def setRevoke (w : System τ) (r : Nat) (p : RevokeCall) : System τ :=
  { w with revokeCalls := update w.revokeCalls r p }

variable [Field τ] [LinearOrder τ]

def advanceAccess (w : System τ) (r : Nat) : Option (System τ) :=
  match w.accessCalls r with
  | .session c started =>
    some (w.setAccess r (if w.base.sessionIsRevoked c.sessionId then .failed .invalidToken else .family c started))
  | .family c started =>
    some (w.setAccess r (if w.base.familyIsRevoked c.familyId then .failed .invalidToken else .access c started))
  | .access c started =>
    if (w.accessRevoked.get w.base.clock c.jti).isSome then some (w.setAccess r (.failed .invalidToken))
    else some ({ w with successes := ⟨c.sessionId, started⟩ :: w.successes }.setAccess r (.succeeded c))
  | .idle | .succeeded _ | .failed _ => none

def revokeAccess (s : KeyStore Text Unit τ) (jti : Text) (ttl now : τ) : KeyStore Text Unit τ :=
  if jti = [] then s else s.set jti () (now + if ttl ≤ 0 then 1 else ttl)

variable [FloorRing τ] (issuers : Nat → Issuer τ)

def advanceRevoke (w : System τ) (r : Nat) : Option (System τ) :=
  match w.revokeCalls r with
  | .markers i sessionId familyId accessJti =>
    if sessionId = [] then some (w.setRevoke r .idle)
    else some ({ w with base := { w.base with
        redis := revokeSessionAndFamily w.base.redis sessionId familyId (issuers i).refreshTTL w.base.clock }
        }.setRevoke r (.access i sessionId accessJti))
  | .access i sessionId accessJti =>
    some ({ w with
      accessRevoked := revokeAccess w.accessRevoked accessJti (issuers i).accessTTL w.base.clock
      revocations := ⟨sessionId, w.tick⟩ :: w.revocations }.setRevoke r .idle)
  | .idle => none

def act (w : System τ) : SystemAction τ → Option (System τ)
  | .base a =>
    if a.admissible w.base.issued then (w.base.step issuers a).map fun b => w.finish b a else none
  | .validateAccess r i tok =>
    match w.accessCalls r with
    | .idle =>
      if tok ∈ w.base.issued then
        match (issuers i).verify tok .access w.base.clock with
        | .ok c => some (w.setAccess r (.session c w.tick))
        | .error e => some (w.setAccess r (.failed e))
      else none
    | _ => none
  | .advanceAccess r => w.advanceAccess r
  | .failAccess r =>
    match w.accessCalls r with
    | .session _ _ | .family _ _ | .access _ _ => some (w.setAccess r (.failed .store))
    | _ => none
  | .revokeSession r i sessionId familyId accessJti =>
    match w.revokeCalls r with
    | .idle => some (w.setRevoke r (.markers i sessionId familyId accessJti))
    | _ => none
  | .advanceRevoke r => w.advanceRevoke issuers r
  | .failRevoke r => some (w.setRevoke r .idle)

def step (w : System τ) (a : SystemAction τ) : Option (System τ) :=
  (w.act issuers a).map fun w' => { w' with tick := w.tick + 1 }

end System

variable {τ : Type*} [Field τ] [LinearOrder τ] [FloorRing τ]

/-- Nothing was revoked or started yet; tokens may have been issued. -/
def systemMachine (issuers : Nat → Issuer τ) : Machine (System τ) (SystemAction τ) where
  init w := (machine issuers).init w.base ∧ w.accessRevoked = KeyStore.empty ∧ w.accessCalls = (fun _ => .idle) ∧
    w.revokeCalls = (fun _ => .idle) ∧ w.revocations = [] ∧ w.successes = []
  step := System.step issuers

/-! ## Markers that outlive the tokens -/

def revocationTTL (familyId : Text) (ttl : τ) : τ :=
  let ttl := if ttl ≤ 0 then 1 else ttl
  if familyId = [] then ttl else wholeMilliseconds ttl

namespace System

def expireBy (w : System τ) (sessionId : Text) (t : τ) : Bool :=
  w.base.issued.all fun tok => tok.claims.sessionId ≠ sessionId || (tok.claims.expiresAt + 1 : τ) ≤ t

/-- The marker of the token's session, if it was ever set, outlives the token. -/
def outlived (w : System τ) (tok : RawToken) : Bool :=
  (w.base.redis.entry (.sessionRevoked tok.claims.sessionId)).all fun e => (tok.claims.expiresAt + 1 : τ) ≤ e.expiresAt

def pairOutlived (issuers : Nat → Issuer τ) (w : System τ) (i : Nat) (p : IssuePairParams) (ids : FreshIds) : Bool :=
  let pair := (issuers i).issuePair p ids w.base.clock
  w.outlived pair.1 && w.outlived pair.2

/-- A marker is set for at least as long as the session's tokens are accepted; a token that is issued is
accepted no longer than the marker of its session lasts; and a call looks for the marker while its token is
accepted. -/
def covered (issuers : Nat → Issuer τ) (w : System τ) : SystemAction τ → Bool
  | .base (.login i p ids) => w.pairOutlived issuers i p ids
  | .base (.stepUp i p jti sessionId) => w.outlived ((issuers i).issueStepUp p jti sessionId w.base.clock)
  | .base (.advance r ids) =>
    match w.base.procs r with
    | .refreshSession _ c _ | .stepUpSession c => w.base.clock < c.expiresAt + 1
    | .issue i c => w.pairOutlived issuers i ⟨c.subject, c.orgId, c.permissions, c.familyId, c.sessionId⟩ ids
    | .revoke i c ttlAt =>
      w.expireBy c.sessionId (w.base.clock +
        revocationTTL c.familyId (replayRevokeTTL (refreshRemainingTTL c ttlAt) (issuers i).refreshTTL))
    | _ => true
  | .advanceAccess r =>
    match w.accessCalls r with
    | .session c _ => w.base.clock < c.expiresAt + 1
    | _ => true
  | .advanceRevoke r =>
    match w.revokeCalls r with
    | .markers i sessionId familyId _ =>
      w.expireBy sessionId (w.base.clock + revocationTTL familyId (issuers i).refreshTTL)
    | _ => true
  | _ => true

end System

end IbexHarness.Session
