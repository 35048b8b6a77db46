import IbexHarness.Session.Lemmas.Revocation
import Mathlib.Algebra.Order.Archimedean.Real.Basic

/-! A token is accepted until the end of the second of its expiry, its marker is kept until the expiry. -/

namespace IbexHarness.Session

open Lib World Option

variable {τ : Type*} [Field τ] [LinearOrder τ] [FloorRing τ]

/-- Along every run in which markers are set in time each token is used with success at most once. -/
theorem tokens_single_use [IsStrictOrderedRing τ] {issuers : Nat → Issuer τ} {w : World τ}
    (h : ((machine issuers).restrict timely).Reachable w) (u : Use) (c : Claims) : w.uses u c ≤ 1 :=
  (useInv h).once u c

/-- Along every run in which markers outlive tokens no call succeeds with a token of a session that was revoked
before the call started. -/
theorem revoked_session_stays_revoked {issuers : Nat → Issuer τ} {w : System τ}
    (h : ((systemMachine issuers).restrict (System.covered issuers)).Reachable w) {v : Revocation}
    (hv : v ∈ w.revocations) {s : Success} (hs : s ∈ w.successes) (hsid : s.sessionId = v.sessionId) :
    ¬ v.completed < s.started :=
  (((System.inv_of_covered h).successes s hs).2 v hv hsid.symm).not_gt

/-! ## Around the expiry -/

theorem later_tick [IsStrictOrderedRing τ] {issuers : Nat → Issuer τ} (w : World τ) {d : τ} (hd : 0 ≤ d) :
    (machine issuers).Later w { w with clock := w.clock + d } :=
  .single (a := .tick d) (by simp [machine, step, hd])

theorem later_refreshed {issuers : Nat → Issuer τ} {w : World τ} {r i : Nat} {tok : RawToken} {c : Claims}
    (ids : FreshIds) (hidle : w.procs r = .idle) (hv : (issuers i).verifyRefreshToken tok w.clock = .ok c)
    (hs : w.sessionIsRevoked c.sessionId = false) (hf : w.familyIsRevoked c.familyId = false)
    (habsent : w.redis.get w.clock (.refreshJti c.jti) = none) :
    (machine issuers).Later w ({ w with
      redis := w.redis.set (.refreshJti c.jti) () (w.clock + refreshRemainingTTL c w.clock)
      log := .consumed .refresh c w.clock :: w.log }.setProc r (.issue i c)) := by
  have hset : w.redis.setNX w.clock (.refreshJti c.jti) () (w.clock + refreshRemainingTTL c w.clock) =
      some (w.redis.set (.refreshJti c.jti) () (w.clock + refreshRemainingTTL c w.clock)) :=
    KeyStore.setNX_eq_some.mpr ⟨habsent, rfl⟩
  have hverified : (machine issuers).Later w (w.setProc r (.refreshTTL i c)) :=
    .single (a := .refreshPair r i tok) (by simp [machine, step, start, hidle, hv, Except.map])
  have hcomputed : (machine issuers).Later (w.setProc r (.refreshTTL i c))
    (w.setProc r (.refreshSession i c w.clock)) :=
    .single (a := .advance r ids) (by simp [machine, step, advance, setProc])
  have hsession : (machine issuers).Later (w.setProc r (.refreshSession i c w.clock))
      (w.setProc r (.refreshFamily i c w.clock)) := by
    simp only [sessionIsRevoked] at hs
    exact .single (a := .advance r ids) (by simp [machine, step, advance, setProc, sessionIsRevoked, hs])
  have hfamily : (machine issuers).Later (w.setProc r (.refreshFamily i c w.clock))
      (w.setProc r (.consume i .refresh c w.clock)) := by
    refine .single (a := .advance r ids) ?_
    have hf' : (w.setProc r (.refreshFamily i c w.clock)).familyIsRevoked c.familyId = false := hf
    simp only [machine, step, advance, procs_setProc_self, hf', Bool.false_eq_true, if_false, setProc_setProc]
  have hmarked : (machine issuers).Later (w.setProc r (.consume i .refresh c w.clock)) _ :=
    .single (a := .advance r ids) (by simp [machine, step, advance, setProc, consumeOnce, Use.key, hset]; rfl)
  exact hverified.trans (hcomputed.trans (hsession.trans (hfamily.trans hmarked)))

section Example

def sampleIssuer : Issuer τ := ⟨0, ['i'], ['a'], 10, 100, 50, ['v']⟩

def sampleIds : FreshIds := ⟨['x'], ['r'], ['f'], ['s']⟩

def sampleRefresh : RawToken :=
  ⟨['v'], 0, ⟨['i'], ['a'], ['u'], ['o'], 0, .refresh, 1, 1, 101, ['r'], ['f'], ['s'], []⟩⟩

def sampleStart : World τ := ⟨1, KeyStore.empty, fun _ => .idle, [], []⟩

/-- A login, and one second before the expiry two calls that race for the refresh token. -/
def sampleRace : List (Action τ) :=
  [.login 0 ⟨['u'], ['o'], 0, [], []⟩ sampleIds, .tick 99, .refreshPair 1 0 sampleRefresh,
    .refreshPair 2 0 sampleRefresh] ++
    (List.replicate 4 [.advance 1 sampleIds, .advance 2 sampleIds]).flatten

def sampleRaced : World ℚ :=
  (((machine fun _ => sampleIssuer).restrict timely).run sampleStart sampleRace).get (by decide +kernel)

theorem tokens_single_use_sample :
    sampleRaced.uses .refresh sampleRefresh.claims = 1 ∧ sampleRaced.uses .refresh sampleRefresh.claims ≤ 1 :=
  ⟨by decide +kernel, tokens_single_use ⟨_, ⟨rfl, rfl, rfl⟩, _, (some_get _).symm⟩ .refresh sampleRefresh.claims⟩

theorem sampleRefresh_verifies {now : τ} (h : unix now ≤ 101) (h' : 1 ≤ unix now) :
    (sampleIssuer : Issuer τ).verifyRefreshToken sampleRefresh now = .ok sampleRefresh.claims := by
  have hexp : ¬ (101 : Int) < unix now := not_lt.mpr h
  have hnbf : ¬ unix now < 1 := not_lt.mpr h'
  have hkind : validateKindAndIdentity sampleRefresh.claims .refresh = true := by decide
  have hkid : Text.trimSpace ['v'] = ['v'] := by decide
  simp only [Issuer.verifyRefreshToken, Issuer.verify, validateClaimTimestamps, hkind]
  simp [sampleRefresh, sampleIssuer, hkid, hexp, hnbf, validateRefreshClaims]

def sampleLogin : World τ :=
  { sampleStart with
    issued := [((sampleIssuer : Issuer τ).issuePair ⟨['u'], ['o'], 0, [], []⟩ sampleIds 1).1, sampleRefresh] }

/-- One second before the expiry the token is used by a first call. -/
def sampleUsed : World τ :=
  { (sampleLogin : World τ) with
    clock := 1 + 99
    redis := KeyStore.empty.set (.refreshJti ['r']) () (1 + 99 + refreshRemainingTTL sampleRefresh.claims (1 + 99))
    procs := Function.update (fun _ => .idle) 1 (.issue 0 sampleRefresh.claims)
    log := [.consumed .refresh sampleRefresh.claims (1 + 99)] }

theorem later_sampleLogin : (machine fun _ => (sampleIssuer : Issuer ℝ)).Later sampleStart sampleLogin := by
  have hiat : unix (1 : ℝ) = 1 := by norm_num [unix]
  have hexp : unix (1 + 100 : ℝ) = 101 := by norm_num [unix]
  have hpair : ((sampleIssuer : Issuer ℝ).issuePair ⟨['u'], ['o'], 0, [], []⟩ sampleIds 1).2 = sampleRefresh := by
    simp only [Issuer.issuePair, Issuer.sign, sampleIssuer, hiat, hexp]
    rfl
  refine .single (a := .login 0 ⟨['u'], ['o'], 0, [], []⟩ sampleIds) ?_
  simp only [machine, step, sampleLogin, sampleStart, ← hpair]

theorem later_sampleUsed : (machine fun _ => (sampleIssuer : Issuer ℝ)).Later sampleLogin sampleUsed := by
  have hverify : (sampleIssuer : Issuer ℝ).verifyRefreshToken sampleRefresh (1 + 99) = .ok sampleRefresh.claims :=
    sampleRefresh_verifies (by norm_num [unix]) (by norm_num [unix])
  have huse : (machine fun _ => (sampleIssuer : Issuer ℝ)).Later { sampleLogin with clock := 1 + 99 } _ :=
    later_refreshed (r := 1) (i := 0) sampleIds rfl hverify rfl (Bool.and_false _) rfl
  exact (later_tick sampleLogin (by norm_num)).trans huse

/-- A refresh token that expires at 101 is used at 100 and again at 101 and a half. -/
theorem refresh_token_used_twice :
    ∃ w : World ℝ, (machine fun _ => sampleIssuer).Reachable w ∧ sampleRefresh ∈ w.issued ∧
      w.uses .refresh sampleRefresh.claims = 2 := by
  have hverify : (sampleIssuer : Issuer ℝ).verifyRefreshToken sampleRefresh (1 + 99 + 3 / 2) =
      .ok sampleRefresh.claims := sampleRefresh_verifies (by norm_num [unix]) (by norm_num [unix])
  have hgone : (sampleUsed : World ℝ).redis.get (1 + 99 + 3 / 2) (.refreshJti ['r']) = none := by
    norm_num [sampleUsed, KeyStore.get, KeyStore.set, refreshRemainingTTL, sampleRefresh]
  have huse : (machine fun _ => (sampleIssuer : Issuer ℝ)).Later { sampleUsed with clock := 1 + 99 + 3 / 2 } _ :=
    later_refreshed (r := 2) (i := 0) sampleIds rfl hverify rfl (Bool.and_false _) hgone
  have hreach : (machine fun _ => (sampleIssuer : Issuer ℝ)).Reachable sampleStart := .of_init ⟨rfl, rfl, rfl⟩
  exact ⟨_, hreach.later (later_sampleLogin.trans (later_sampleUsed.trans
    ((later_tick sampleUsed (by norm_num)).trans huse))), by decide, rfl⟩

/-! ## Around a revocation -/

def sampleSystem : System τ :=
  ⟨0, sampleStart, fun _ => 0, KeyStore.empty, fun _ => .idle, fun _ => .idle, [], []⟩

def sampleAccess : RawToken :=
  ⟨['v'], 0, ⟨['i'], ['a'], ['u'], ['o'], 0, .access, 1, 1, 11, ['x'], ['f'], ['s'], []⟩⟩

/-- A login, an access that is validated, and a `RevokeSession` two seconds after the login. -/
def sampleRevocation : List (SystemAction τ) :=
  [.base (.login 0 ⟨['u'], ['o'], 0, [], []⟩ sampleIds), .validateAccess 0 0 sampleAccess, .advanceAccess 0,
    .advanceAccess 0, .advanceAccess 0, .base (.tick 2), .revokeSession 0 0 ['s'] ['f'] ['x'], .advanceRevoke 0,
    .advanceRevoke 0, .validateAccess 1 0 sampleAccess, .advanceAccess 1]

def sampleRevoked : System ℚ :=
  (((systemMachine fun _ => sampleIssuer).restrict (System.covered fun _ => sampleIssuer)).run sampleSystem
    sampleRevocation).get (by decide +kernel)

theorem revoked_session_stays_revoked_sample :
    sampleRevoked.revocations = [⟨['s'], 8⟩] ∧ sampleRevoked.successes = [⟨['s'], 1⟩] ∧ ¬ 8 < 1 := by
  have hv : sampleRevoked.revocations = [⟨['s'], 8⟩] := by decide +kernel
  have hs : sampleRevoked.successes = [⟨['s'], 1⟩] := by decide +kernel
  have hr : ((systemMachine fun _ => sampleIssuer).restrict (System.covered fun _ => sampleIssuer)).Reachable
      sampleRevoked :=
    ⟨_, ⟨⟨rfl, rfl, rfl⟩, rfl, rfl, rfl, rfl, rfl⟩, sampleRevocation, (some_get _).symm⟩
  exact ⟨hv, hs, revoked_session_stays_revoked (v := ⟨['s'], 8⟩) (s := ⟨['s'], 1⟩) hr (by simp [hv]) (by simp [hs]) rfl⟩

def rotatedIds : FreshIds := ⟨['y'], ['q'], [], []⟩

def rotatedRefresh : RawToken :=
  ⟨['v'], 0, ⟨['i'], ['a'], ['u'], ['o'], 0, .refresh, 51, 51, 151, ['q'], ['f'], ['s'], []⟩⟩

/-- A rotation is past its checks when the session is revoked, with a marker until 101; at 51 it issues a pair that
is presented at 111. -/
def rotationRace : List (SystemAction τ) :=
  [.base (.login 0 ⟨['u'], ['o'], 0, [], []⟩ sampleIds), .base (.refreshPair 1 0 sampleRefresh)] ++
    List.replicate 4 (.base (.advance 1 rotatedIds)) ++
    [.revokeSession 0 0 ['s'] ['f'] ['x'], .advanceRevoke 0, .advanceRevoke 0, .base (.tick 50),
      .base (.advance 1 rotatedIds), .base (.tick 60), .base (.refreshPair 2 0 rotatedRefresh)] ++
    List.replicate 5 (.base (.advance 2 ⟨['z'], ['p'], [], []⟩))

def rotationRaced : System ℚ :=
  ((systemMachine fun _ => sampleIssuer).run sampleSystem rotationRace).get (by decide +kernel)

/-- A `RefreshPair` that starts after a `RevokeSession` of its session succeeds. -/
theorem revoked_session_refreshed : (systemMachine fun _ => (sampleIssuer : Issuer ℚ)).Reachable rotationRaced ∧
    ∃ v ∈ rotationRaced.revocations, ∃ s ∈ rotationRaced.successes,
      s.sessionId = v.sessionId ∧ v.completed < s.started := by
  refine ⟨⟨_, ⟨⟨rfl, rfl, rfl⟩, rfl, rfl, rfl, rfl, rfl⟩, rotationRace, (some_get _).symm⟩, ?_⟩
  decide +kernel

end Example

end IbexHarness.Session
