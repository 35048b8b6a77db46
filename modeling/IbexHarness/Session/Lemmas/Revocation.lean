import IbexHarness.Session.Lifecycle
import IbexHarness.Session.Revocation

/-! The marker of a used token outlives every instant at which the token can be presented in time. -/

namespace IbexHarness.Session

section

open Lib List

theorem isUse_iff {τ : Type*} {u : Use} {c : Claims} {ev : Event τ} :
    ev.isUse u c = true ↔ ∃ t, ev = .consumed u c t := by
  cases ev with
  | consumed u' c' t => simp [Event.isUse]

@[simp] theorem World.procs_setProc_self {τ : Type*} (w : World τ) (r : Nat) (p : Proc τ) :
    (w.setProc r p).procs r = p := by
  simp [World.setProc]

@[simp] theorem World.setProc_setProc {τ : Type*} (w : World τ) (r : Nat) (p q : Proc τ) :
    (w.setProc r p).setProc r q = w.setProc r q := by
  simp [World.setProc]

variable {τ : Type*} [Field τ] [LinearOrder τ]

def Proc.ttlAt : Proc τ → Option τ
  | .refreshSession _ _ t | .refreshFamily _ _ t | .consume _ _ _ t | .revoke _ _ t => some t
  | _ => none

inductive Effect (w : World τ) : World τ → Prop where
  | tick (d : τ) (hd : 0 ≤ d) : Effect w { w with clock := w.clock + d }
  /-- no marker is written -/
  | moved (redis : KeyStore Key Unit τ) (procs : Nat → Proc τ) (issued : List RawToken)
      (hkeys : ∀ (u : Use) c, redis.entry (u.key c) = w.redis.entry (u.key c))
      (hprocs : ∀ r t, (procs r).ttlAt = some t → t = w.clock ∨ (w.procs r).ttlAt = some t) :
      Effect w { w with redis := redis, procs := procs, issued := issued }
  | consumed (r i : Nat) (u : Use) (c : Claims) (ttlAt : τ) (p : Proc τ) (hproc : w.procs r = .consume i u c ttlAt)
      (habsent : w.redis.get w.clock (u.key c) = none) (ids : FreshIds)
      (htimely : w.timely (.advance r ids) = true) (hp : p.ttlAt = none) :
      Effect w ({ w with
        redis := w.redis.set (u.key c) () (w.clock + refreshRemainingTTL c ttlAt)
        log := .consumed u c w.clock :: w.log }.setProc r p)

namespace World

variable {w w' : World τ} {r i : Nat} {u : Use} {c : Claims} {ttlAt : τ} {ids : FreshIds}

theorem setProc_effect {p : Proc τ} {redis : KeyStore Key Unit τ} {issued : List RawToken}
    (hkeys : ∀ (u : Use) c, redis.entry (u.key c) = w.redis.entry (u.key c))
    (hp : ∀ t, p.ttlAt = some t → t = w.clock ∨ (w.procs r).ttlAt = some t) :
    Effect w ({ w with redis := redis, issued := issued }.setProc r p) := by
  refine .moved redis _ issued hkeys fun r' t ht => ?_
  by_cases hr : r' = r
  · subst hr
    exact hp t (by simpa using ht)
  · exact .inr (by simpa [hr] using ht)

theorem start_effect {res : Except Error (Proc τ)} (hres : ∀ p, res = .ok p → p.ttlAt = none)
    (h : w.start r res = some w') : Effect w w' := by
  unfold start at h
  split at h
  · split at h
    · rename_i p
      cases h
      exact setProc_effect (fun _ _ => rfl) (by simp [hres p rfl])
    · cases h
      exact setProc_effect (fun _ _ => rfl) (by simp [Proc.ttlAt])
  · cases h

theorem consumeOnce_effect (hproc : w.procs r = .consume i u c ttlAt) (ht : w.timely (.advance r ids) = true) :
    Effect w (w.consumeOnce r i u c ttlAt) := by
  unfold consumeOnce
  cases hset : w.redis.setNX w.clock (u.key c) () (w.clock + refreshRemainingTTL c ttlAt) with
  | none =>
    refine setProc_effect (fun _ _ => rfl) fun t hp => .inr ?_
    cases u with
    | refresh => simpa [hproc, Proc.ttlAt] using hp
    | stepUp => cases hp
  | some redis =>
    obtain ⟨habsent, rfl⟩ := KeyStore.setNX_eq_some.mp hset
    refine .consumed r i u c ttlAt _ hproc habsent ids ht ?_
    cases u <;> rfl

section Steps

variable [FloorRing τ] {issuers : Nat → Issuer τ}

theorem revokeSessionAndFamily_entry (s : KeyStore Key Unit τ) (sessionId familyId : Text) (ttl now : τ) (u : Use)
    (c : Claims) : (revokeSessionAndFamily s sessionId familyId ttl now).entry (u.key c) = s.entry (u.key c) := by
  have hs : u.key c ≠ .sessionRevoked sessionId := by cases u <;> simp [Use.key]
  have hf : u.key c ≠ .familyRevoked familyId := by cases u <;> simp [Use.key]
  unfold revokeSessionAndFamily
  dsimp only
  split <;> simp [KeyStore.set, hs, hf]

theorem advance_effect (ht : w.timely (.advance r ids) = true)
    (h : w.advance issuers r ids = some w') : Effect w w' := by
  unfold advance at h
  split at h
  case h_1 | h_5 =>
    cases h
    exact setProc_effect (fun _ _ => rfl) fun t hp => .inl (Option.some.inj hp).symm
  case h_2 hproc | h_3 hproc =>
    cases h
    refine setProc_effect (fun _ _ => rfl) fun t hp => .inr ?_
    split at hp
    · cases hp
    · rw [hproc]
      exact hp
  case h_4 =>
    cases h
    refine setProc_effect (fun _ _ => rfl) fun t hp => ?_
    split at hp <;> cases hp
  case h_6 hproc =>
    cases h
    exact consumeOnce_effect hproc ht
  case h_7 =>
    split at h
    · cases h
      exact setProc_effect (fun _ _ => rfl) fun t hp => nomatch hp
    · cases h
      exact setProc_effect (fun u c => revokeSessionAndFamily_entry _ _ _ _ _ u c) fun t hp => nomatch hp
  case h_8 =>
    cases h
    exact setProc_effect (fun _ _ => rfl) fun t hp => nomatch hp
  case h_9 => cases h

theorem step_effect {act : Action τ} (ht : w.timely act = true) (h : w.step issuers act = some w') : Effect w w' := by
  cases act with
  | tick d =>
    simp only [step] at h
    split at h
    · cases h
      exact .tick d ‹_›
    · cases h
  | login | stepUp =>
    cases h
    exact .moved w.redis w.procs _ (fun _ _ => rfl) fun _ _ hp => .inr hp
  | logout i sessionId familyId =>
    simp only [step] at h
    split at h
    · cases h
    · cases h
      exact .moved _ w.procs w.issued (fun u c => revokeSessionAndFamily_entry _ _ _ _ _ u c) fun _ _ hp => .inr hp
  | refreshPair r i tok =>
    refine start_effect (fun p hp => ?_) h
    cases hv : (issuers i).verifyRefreshToken tok w.clock with
    | error e => simp [hv, Except.map] at hp
    | ok c =>
      simp only [hv, Except.map, Except.ok.injEq] at hp
      rw [← hp]
      rfl
  | consumeStepUp r i tok expect =>
    refine start_effect (fun p hp => ?_) h
    split at hp
    · cases hp
    · split at hp
      · rw [← Except.ok.inj hp]
        rfl
      · cases hp
  | advance r ids => exact advance_effect ht h
  | fail r =>
    simp only [step] at h
    split at h
    case h_4 =>
      cases h
      exact setProc_effect (fun _ _ => rfl) fun t hp => nomatch hp
    all_goals cases h

end Steps

/-- Until when a token used at an instant must not be used again: its expiry, and the end of the second
after it if the use was in that second. -/
def usedUntil (c : Claims) (t : τ) : τ := if t < c.expiresAt then c.expiresAt else c.expiresAt + 1

structure UseInv (w : World τ) : Prop where
  ttl_le : ∀ r t, (w.procs r).ttlAt = some t → t ≤ w.clock
  time_le : ∀ u c t, .consumed u c t ∈ w.log → t ≤ w.clock
  marker : ∀ u c t, .consumed u c t ∈ w.log → w.clock < usedUntil c t →
    ∃ e, w.redis.entry (u.key c) = some e ∧ usedUntil c t ≤ e.expiresAt
  once : ∀ u c, w.uses u c ≤ 1

theorem usedEarly_of_mem {t : τ} (h : .consumed u c t ∈ w.log) (ht : t < c.expiresAt) : w.usedEarly u c = true :=
  any_eq_true.mpr ⟨_, h, by simp [ht]⟩

theorem UseInv.not_used (h : UseInv w) (habsent : w.redis.get w.clock (u.key c) = none)
    (ht : w.clock < c.expiresAt ∨ w.clock < c.expiresAt + 1 ∧ w.usedEarly u c = false) (t : τ) :
    .consumed u c t ∉ w.log := by
  intro hmem
  have htime := h.time_le u c t hmem
  have hlt : w.clock < usedUntil c t := by
    unfold usedUntil
    rcases ht with ht | ⟨ht, hearly⟩
    · rw [if_pos (lt_of_le_of_lt htime ht)]
      exact ht
    · have hlate : ¬ t < c.expiresAt := fun hlt => by simp [usedEarly_of_mem hmem hlt] at hearly
      rw [if_neg hlate]
      exact ht
  obtain ⟨e, he, hle⟩ := h.marker u c t hmem hlt
  exact KeyStore.get_ne_none he (lt_of_lt_of_le hlt hle) habsent

theorem timely_consume (hproc : w.procs r = .consume i u c ttlAt) (ht : w.timely (.advance r ids) = true) :
    (w.clock < c.expiresAt ∨ (c.expiresAt : τ) ≤ ttlAt) ∧
      (w.clock < c.expiresAt ∨ w.clock < c.expiresAt + 1 ∧ w.usedEarly u c = false) := by
  simp only [timely, hproc, Bool.or_eq_true, Bool.and_eq_true, decide_eq_true_eq, Bool.not_eq_true'] at ht
  rcases ht with ht | ⟨⟨h₁, h₂⟩, h₃⟩
  · exact ⟨.inl ht, .inl ht⟩
  · exact ⟨.inr h₁, .inr ⟨h₂, h₃⟩⟩

variable [IsStrictOrderedRing τ]

theorem usedUntil_le {now : τ} (hle : ttlAt ≤ now)
    (h : now < c.expiresAt ∨ (c.expiresAt : τ) ≤ ttlAt) : usedUntil c now ≤ now + refreshRemainingTTL c ttlAt := by
  unfold usedUntil refreshRemainingTTL
  rcases h with h | h
  · have hpos : ¬ (c.expiresAt : τ) - ttlAt ≤ 0 := by linarith
    rw [if_pos h, if_neg hpos]
    linarith
  · have hpos : (c.expiresAt : τ) - ttlAt ≤ 0 := by linarith
    rw [if_neg (by linarith), if_pos hpos]
    linarith

theorem UseInv.consumed (h : UseInv w) {p : Proc τ}
    (hproc : w.procs r = .consume i u c ttlAt) (habsent : w.redis.get w.clock (u.key c) = none)
    (ht : w.timely (.advance r ids) = true) (hp : p.ttlAt = none) :
    UseInv ({ w with
      redis := w.redis.set (u.key c) () (w.clock + refreshRemainingTTL c ttlAt)
      log := .consumed u c w.clock :: w.log }.setProc r p) := by
  obtain ⟨httl, hpresent⟩ := timely_consume hproc ht
  have hle : ttlAt ≤ w.clock := h.ttl_le r ttlAt (by rw [hproc]; rfl)
  have hnew := h.not_used habsent hpresent
  refine ⟨?_, ?_, ?_, ?_⟩
  · intro r' t hr'
    by_cases hr : r' = r
    · subst hr
      simp [setProc, hp] at hr'
    · exact h.ttl_le r' t (by simpa [setProc, hr] using hr')
  · intro u' c' t hmem
    rcases mem_cons.mp hmem with heq | hmem
    · cases heq
      exact le_refl _
    · exact h.time_le u' c' t hmem
  · intro u' c' t hmem hlt
    rcases mem_cons.mp hmem with heq | hmem
    · cases heq
      exact ⟨_, KeyStore.entry_put_self _ _ _, usedUntil_le hle httl⟩
    · -- a marker in place is not written over
      obtain ⟨e, he, hexp⟩ := h.marker u' c' t hmem hlt
      have hne : u'.key c' ≠ u.key c := by
        intro hk
        rw [hk] at he
        exact KeyStore.get_ne_none he (lt_of_lt_of_le hlt hexp) habsent
      exact ⟨e, (KeyStore.entry_put_of_ne _ _ hne).trans he, hexp⟩
  · intro u' c'
    show (Event.consumed u c w.clock :: w.log).countP (Event.isUse u' c') ≤ 1
    rw [countP_cons]
    split
    · rename_i huse
      obtain ⟨t, heq⟩ := isUse_iff.mp huse
      cases heq
      have hzero : w.log.countP (Event.isUse u c) = 0 := by
        refine countP_eq_zero.mpr fun ev hev huse => ?_
        obtain ⟨t, rfl⟩ := isUse_iff.mp huse
        exact hnew t hev
      rw [hzero]
    · exact h.once u' c'

theorem UseInv.step (h : UseInv w) (hs : Effect w w') : UseInv w' := by
  cases hs with
  | tick d hd =>
    have hle : w.clock ≤ w.clock + d := le_add_of_nonneg_right hd
    exact ⟨fun r t ht => (h.ttl_le r t ht).trans hle, fun u c t hm => (h.time_le u c t hm).trans hle,
      fun u c t hm hlt => h.marker u c t hm (lt_of_le_of_lt hle hlt), h.once⟩
  | moved redis procs issued hkeys hprocs =>
    refine ⟨fun r t ht => ?_, h.time_le, fun u c t hm hlt => ?_, h.once⟩
    · rcases hprocs r t ht with rfl | hold
      · exact le_refl _
      · exact h.ttl_le r t hold
    · rw [hkeys]
      exact h.marker u c t hm hlt
  | consumed r i u c ttlAt p hproc habsent ids htimely hp => exact h.consumed hproc habsent htimely hp

theorem useInv [FloorRing τ] {issuers : Nat → Issuer τ} (h : ((machine issuers).restrict timely).Reachable w) :
    UseInv w := by
  refine h.invariant (P := UseInv) ?_ ?_
  · rintro w ⟨-, hp, hl⟩
    constructor <;> simp [hp, hl, Proc.ttlAt, uses]
  · intro w act w' hi hs
    obtain ⟨ht, hs⟩ := Machine.restrict_step_eq_some.mp hs
    exact hi.step (step_effect ht hs)

end World

end

/-! The marker of a session, once set, outlives every token of it that was issued. -/

open Lib List Option World

variable {τ : Type*}

/-- The claims of a call that has not looked for the marker of its session. -/
def Proc.unchecked : Proc τ → Option Claims
  | .refreshTTL _ c | .refreshSession _ c _ | .stepUpSession c => some c
  | _ => none

def Proc.checked : Proc τ → Option Claims
  | .refreshFamily _ c _ | .stepUpTTL c | .consume _ _ c _ | .issue _ c | .revoke _ c _ => some c
  | _ => none

namespace System

def Unrevoked (w : System τ) (c : Claims) (started : Nat) : Prop :=
  ∀ v ∈ w.revocations, v.sessionId = c.sessionId → started ≤ v.completed

def Issued (w : System τ) (c : Claims) : Prop := ∃ tok ∈ w.base.issued, tok.claims = c

structure CallOk (n : Nat) (w : System τ) (started : Nat) (p : Proc τ) : Prop where
  started_lt : started < n ∨ p.unchecked = none ∧ p.checked = none
  issued : ∀ c, p.unchecked = some c → w.Issued c
  unrevoked : ∀ c, p.checked = some c → w.Unrevoked c started

def AccessOk (n : Nat) (w : System τ) : AccessCall → Prop
  | .session c started => started < n ∧ w.Issued c
  | .family c started | .access c started => started < n ∧ w.Unrevoked c started
  | .idle | .succeeded _ | .failed _ => True

def RevokeOk (w : System τ) : RevokeCall → Prop
  | .access _ sessionId _ => w.base.redis.entry (.sessionRevoked sessionId) ≠ none
  | .idle | .markers _ _ _ _ => True

variable {n : Nat} {w : System τ}

/-! ## Facts about calls stay true -/

structure Grows (n : Nat) (w w' : System τ) : Prop where
  issued : ∀ tok ∈ w.base.issued, tok ∈ w'.base.issued
  marked : ∀ sid, w.base.redis.entry (.sessionRevoked sid) ≠ none → w'.base.redis.entry (.sessionRevoked sid) ≠ none
  revocations : ∀ v ∈ w'.revocations, v ∈ w.revocations ∨ n ≤ v.completed + 1

variable {w' : System τ} {started m : Nat} {p : Proc τ}

theorem Grows.of_eq (hissued : w'.base.issued = w.base.issued)
    (hredis : ∀ sid, w'.base.redis.entry (.sessionRevoked sid) = w.base.redis.entry (.sessionRevoked sid))
    (hrev : w'.revocations = w.revocations) : Grows n w w' :=
  ⟨fun _ h => hissued ▸ h, fun sid h => (hredis sid).symm ▸ h, fun _ h => .inl (hrev ▸ h)⟩

theorem CallOk.grow (h : CallOk n w started p) (hg : Grows n w w') (hn : n ≤ m) : CallOk m w' started p := by
  refine ⟨h.started_lt.imp (fun hlt => Nat.lt_of_lt_of_le hlt hn) id, fun c hc => ?_, fun c hc v hv hsid => ?_⟩
  · obtain ⟨tok, htok, heq⟩ := h.issued c hc
    exact ⟨tok, hg.issued tok htok, heq⟩
  · rcases hg.revocations v hv with hv | hle
    · exact h.unrevoked c hc v hv hsid
    · rcases h.started_lt with hlt | ⟨-, hnone⟩
      · omega
      · simp [hnone] at hc

theorem CallOk.next {q : Proc τ} (h : CallOk n w started p) (hu : q.unchecked = p.unchecked)
    (hc : q.checked = p.checked) : CallOk n w started q :=
  ⟨hu ▸ hc ▸ h.started_lt, hu ▸ h.issued, hc ▸ h.unrevoked⟩

theorem CallOk.ended (hu : p.unchecked = none) (hc : p.checked = none) : CallOk n w started p :=
  ⟨.inr ⟨hu, hc⟩, by simp [hu], by simp [hc]⟩

theorem CallOk.checkedBy {c : Claims} (h : CallOk n w started p)
    (hu : p.unchecked = some c) (hc : w.Unrevoked c started) {q : Proc τ} (hq : q.unchecked = none)
    (hqc : q.checked = some c) : CallOk n w started q := by
  refine ⟨.inl (h.started_lt.resolve_right (by simp [hu])), by simp [hq], fun c' hc' => ?_⟩
  obtain rfl : c = c' := by simpa [hqc] using hc'
  exact hc

theorem AccessOk.grow {p : AccessCall} (h : AccessOk n w p) (hg : Grows n w w') (hn : n ≤ m) : AccessOk m w' p := by
  have hunrevoked : ∀ {c : Claims} {started : Nat}, started < n → w.Unrevoked c started → w'.Unrevoked c started := by
    intro c started hlt hc v hv hsid
    rcases hg.revocations v hv with hv | hle
    · exact hc v hv hsid
    · omega
  cases p with
  | session c started =>
    obtain ⟨hlt, tok, htok, heq⟩ := h
    exact ⟨by omega, tok, hg.issued tok htok, heq⟩
  | family | access => exact ⟨Nat.lt_of_lt_of_le h.1 hn, hunrevoked h.1 h.2⟩
  | _ => trivial

theorem RevokeOk.grow {p : RevokeCall} (h : RevokeOk w p) (hg : Grows n w w') : RevokeOk w' p := by
  cases p with
  | access i sid jti => exact hg.marked sid h
  | _ => trivial

variable [Field τ] [LinearOrder τ]

structure Inv (n : Nat) (w : System τ) : Prop where
  markers : ∀ tok ∈ w.base.issued, ∀ e, w.base.redis.entry (.sessionRevoked tok.claims.sessionId) = some e →
    (tok.claims.expiresAt + 1 : τ) ≤ e.expiresAt
  calls : ∀ r, CallOk n w (w.started r) (w.base.procs r)
  accessCalls : ∀ r, AccessOk n w (w.accessCalls r)
  revokeCalls : ∀ r, RevokeOk w (w.revokeCalls r)
  revocations : ∀ v ∈ w.revocations, w.base.redis.entry (.sessionRevoked v.sessionId) ≠ none
  successes : ∀ s ∈ w.successes, s.started < n ∧ ∀ v ∈ w.revocations, v.sessionId = s.sessionId → s.started ≤
    v.completed

variable {c : Claims} {r : Nat} {ids : FreshIds} {b : World τ}

theorem Inv.unrevoked (h : Inv n w) (hc : w.Issued c) (hlt : w.base.clock < c.expiresAt + 1)
    (hpass : w.base.sessionIsRevoked c.sessionId = false) (started : Nat) : w.Unrevoked c started := by
  intro v hv hsid
  obtain ⟨tok, htok, rfl⟩ := hc
  obtain ⟨e, he⟩ := ne_none_iff_exists'.mp (h.revocations v hv)
  rw [hsid] at he
  have hfound := KeyStore.get_ne_none he (lt_of_lt_of_le hlt (h.markers tok htok e he))
  simp only [sessionIsRevoked, isSome_eq_false_iff, isNone_iff_eq_none] at hpass
  exact absurd hpass hfound

/-! ## Changes of the system -/

theorem Inv.move (h : Inv n w) (hissued : w'.base.issued = w.base.issued)
    (hredis : ∀ sid, w'.base.redis.entry (.sessionRevoked sid) = w.base.redis.entry (.sessionRevoked sid))
    (hrev : w'.revocations = w.revocations)
    (hcalls : ∀ r, w'.base.procs r = w.base.procs r ∧ w'.started r = w.started r ∨
      CallOk n w (w'.started r) (w'.base.procs r))
    (haccess : ∀ r, w'.accessCalls r = w.accessCalls r ∨ AccessOk n w (w'.accessCalls r))
    (hrevoke : ∀ r, w'.revokeCalls r = w.revokeCalls r ∨ RevokeOk w (w'.revokeCalls r))
    (hsucc : ∀ s ∈ w'.successes, s ∈ w.successes ∨ s.started < n ∧
      ∀ v ∈ w.revocations, v.sessionId = s.sessionId → s.started ≤ v.completed) : Inv n w' := by
  have hg : Grows n w w' := .of_eq hissued hredis hrev
  refine ⟨fun tok htok e he => ?_, fun r => ?_, fun r => ?_, fun r => ?_, fun v hv => ?_, fun s hs => ?_⟩
  · exact h.markers tok (hissued ▸ htok) e (hredis _ ▸ he)
  · rcases hcalls r with ⟨hp, hs⟩ | hok
    · rw [hp, hs]
      exact (h.calls r).grow hg le_rfl
    · exact hok.grow hg le_rfl
  · rcases haccess r with hp | hok
    · rw [hp]
      exact (h.accessCalls r).grow hg le_rfl
    · exact hok.grow hg le_rfl
  · rcases hrevoke r with hp | hok
    · rw [hp]
      exact (h.revokeCalls r).grow hg
    · exact hok.grow hg
  · rw [hredis]
    exact h.revocations v (hrev ▸ hv)
  · rw [hrev]
    exact (hsucc s hs).elim (fun hs => h.successes s hs) id

section

variable (h : Inv n w)
include h

theorem Inv.store {clock : τ} {redis : KeyStore Key Unit τ} {log : List (Event τ)}
    (hredis : ∀ sid, redis.entry (.sessionRevoked sid) = w.base.redis.entry (.sessionRevoked sid)) :
    Inv n { w with base := { w.base with clock := clock, redis := redis, log := log } } :=
  h.move rfl hredis rfl (fun _ => .inl ⟨rfl, rfl⟩) (fun _ => .inl rfl) (fun _ => .inl rfl) fun _ hs => .inl hs

theorem Inv.startCall (hp : CallOk n w started p) :
    Inv n { w with base := w.base.setProc r p, started := Function.update w.started r started } := by
  refine h.move rfl (fun _ => rfl) rfl (fun r' => ?_) (fun _ => .inl rfl) (fun _ => .inl rfl) fun _ hs => .inl hs
  by_cases hr : r' = r
  · subst hr
    exact .inr (by simpa using hp)
  · exact .inl (by simp [setProc, hr])

theorem Inv.moveCall (hp : CallOk n w (w.started r) p) : Inv n { w with base := w.base.setProc r p } := by
  simpa using h.startCall (r := r) hp

theorem Inv.moved {p' : Proc τ} (hproc : w.base.procs r = p) (hp' : CallOk n w (w.started r) p')
    (hsucc : succeededBy (w.started r) p p' = []) (hrev : revokedBy w.tick p p' = []) :
    Inv n (w.finish (w.base.setProc r p') (.advance r ids)) := by
  simpa [finish, hproc, hsucc, hrev] using h.moveCall hp'

theorem Inv.succeed (hlt : started < n) (hc : w.Unrevoked c started) :
    Inv n { w with successes := ⟨c.sessionId, started⟩ :: w.successes } := by
  refine h.move rfl (fun _ => rfl) rfl (fun _ => .inl ⟨rfl, rfl⟩) (fun _ => .inl rfl) (fun _ => .inl rfl) fun s hs => ?_
  rcases mem_cons.mp hs with rfl | hs
  · exact .inr ⟨hlt, hc⟩
  · exact .inl hs

theorem Inv.setAccess {p : AccessCall} (hp : AccessOk n w p) : Inv n (w.setAccess r p) := by
  refine h.move rfl (fun _ => rfl) rfl (fun _ => .inl ⟨rfl, rfl⟩) (fun r' => ?_) (fun _ => .inl rfl) fun _ hs => .inl hs
  by_cases hr : r' = r
  · subst hr
    exact .inr (by simpa [System.setAccess] using hp)
  · exact .inl (by simp [System.setAccess, hr])

theorem Inv.setRevoke {p : RevokeCall} (hp : RevokeOk w p) : Inv n (w.setRevoke r p) := by
  refine h.move rfl (fun _ => rfl) rfl (fun _ => .inl ⟨rfl, rfl⟩) (fun _ => .inl rfl) (fun r' => ?_) fun _ hs => .inl hs
  by_cases hr : r' = r
  · subst hr
    exact .inr (by simpa [System.setRevoke] using hp)
  · exact .inl (by simp [System.setRevoke, hr])

end

theorem Inv.grow (h : Inv n w) (hg : Grows n w w') (hn : n ≤ m)
    (hprocs : w'.base.procs = w.base.procs) (hstarted : w'.started = w.started)
    (haccess : w'.accessCalls = w.accessCalls) (hrevoke : w'.revokeCalls = w.revokeCalls)
    (hsucc : w'.successes = w.successes)
    (hmarkers : ∀ tok ∈ w'.base.issued, ∀ e, w'.base.redis.entry (.sessionRevoked tok.claims.sessionId) = some e →
      (tok.claims.expiresAt + 1 : τ) ≤ e.expiresAt)
    (hmarked : ∀ v ∈ w'.revocations, w'.base.redis.entry (.sessionRevoked v.sessionId) ≠ none) : Inv m w' where
  markers := hmarkers
  calls r := by
    rw [hprocs, hstarted]
    exact (h.calls r).grow hg hn
  accessCalls r := haccess ▸ (h.accessCalls r).grow hg hn
  revokeCalls r := hrevoke ▸ (h.revokeCalls r).grow hg
  revocations := hmarked
  successes s hs := by
    obtain ⟨hlt, hall⟩ := h.successes s (hsucc ▸ hs)
    refine ⟨by omega, fun v hv hsid => ?_⟩
    rcases hg.revocations v hv with hv | hle
    · exact hall v hv hsid
    · omega

theorem Inv.setTick (h : Inv n w) (hn : n ≤ m) (t : Nat) : Inv m { w with tick := t } :=
  h.grow (.of_eq rfl (fun _ => rfl) rfl) hn rfl rfl rfl rfl rfl h.markers h.revocations

theorem Inv.issue (h : Inv n w) {toks : List RawToken} (htoks : ∀ tok ∈ toks, w.outlived tok = true) :
    Inv n { w with base := { w.base with issued := toks ++ w.base.issued } } := by
  refine h.grow ⟨fun _ ht => mem_append_right _ ht, fun _ hm => hm, fun _ hv => .inl hv⟩ le_rfl rfl rfl rfl rfl rfl
    (fun tok htok e he => ?_) h.revocations
  rcases mem_append.mp htok with htok | htok
  · simpa [outlived, show w.base.redis.entry _ = some e from he] using htoks tok htok
  · exact h.markers tok htok e he

theorem Inv.complete (h : Inv n w) {v : Revocation} (hv : w.base.redis.entry (.sessionRevoked v.sessionId) ≠ none)
    (hn : n ≤ v.completed + 1) (access : KeyStore Text Unit τ) :
    Inv n { w with accessRevoked := access, revocations := v :: w.revocations } := by
  refine h.grow ⟨fun _ ht => ht, fun _ hm => hm, fun v' hv' => ?_⟩ le_rfl rfl rfl rfl rfl rfl h.markers
    (forall_mem_cons.mpr ⟨hv, h.revocations⟩)
  rcases mem_cons.mp hv' with rfl | hv'
  · exact .inr hn
  · exact .inl hv'

theorem Inv.consumeOnce (h : Inv n w) {i : Nat} {u : Use} {ttlAt : τ} (hproc : w.base.procs r = .consume i u c ttlAt) :
    Inv n (w.finish (w.base.consumeOnce r i u c ttlAt) (.advance r ids)) := by
  have hok : CallOk n w (w.started r) (.consume i u c ttlAt) := hproc ▸ h.calls r
  have hlt : w.started r < n := hok.started_lt.resolve_right (by simp [Proc.checked])
  unfold World.consumeOnce
  cases hset : w.base.redis.setNX w.base.clock (u.key c) () (w.base.clock + refreshRemainingTTL c ttlAt) with
  | none =>
    cases u with
    | refresh =>
      exact h.moved hproc (hok.next rfl rfl) rfl rfl
    | stepUp =>
      exact h.moved hproc (.ended rfl rfl) rfl rfl
  | some redis =>
    obtain ⟨-, rfl⟩ := KeyStore.setNX_eq_some.mp hset
    have hredis : ∀ sid, (w.base.redis.set (u.key c) () (w.base.clock + refreshRemainingTTL c ttlAt)).entry
        (.sessionRevoked sid) = w.base.redis.entry (.sessionRevoked sid) := fun sid =>
      KeyStore.entry_put_of_ne _ _ (by cases u <;> simp [Use.key])
    cases u with
    | refresh =>
      simpa [finish, hproc, succeededBy, revokedBy] using
        (h.store hredis).moveCall (p := .issue i c)
        (CallOk.grow (w := w) (hok.next rfl rfl) (.of_eq rfl hredis rfl) le_rfl)
    | stepUp =>
      simpa [finish, hproc, succeededBy, revokedBy] using
        ((h.succeed hlt (hok.unrevoked c rfl)).store hredis).moveCall (r := r) (p := .succeeded) (.ended rfl rfl)

theorem Inv.start (h : Inv (w.tick + 1) w) {res : Except Error (Proc τ)}
    (hres : ∀ p, res = .ok p → p.checked = none ∧ ∀ c, p.unchecked = some c → w.Issued c)
    (hs : w.base.start r res = some b) :
    Inv (w.tick + 1) { w with base := b, started := Function.update w.started r w.tick } := by
  unfold World.start at hs
  split at hs
  · split at hs
    · rename_i p
      cases hs
      obtain ⟨hchecked, hissued⟩ := hres p rfl
      exact h.startCall ⟨.inl (Nat.lt_succ_self _), hissued, by simp [hchecked]⟩
    · cases hs
      exact h.startCall (.ended rfl rfl)
  · cases hs

section Markers

variable [FloorRing τ]

theorem entry_revokeSessionAndFamily (s : KeyStore Key Unit τ) (sid fid : Text) (ttl now : τ) :
    (revokeSessionAndFamily s sid fid ttl now).entry (.sessionRevoked sid) =
      some ⟨(), now + revocationTTL fid ttl⟩ := by
  unfold revokeSessionAndFamily revocationTTL
  dsimp only
  split
  · simp [KeyStore.set]
  · rw [KeyStore.set, KeyStore.entry_put_of_ne _ _ (by simp), KeyStore.set, KeyStore.entry_put_self]

theorem entry_revokeSessionAndFamily_of_ne (s : KeyStore Key Unit τ) {sid sid' : Text} (fid : Text) (ttl now : τ)
    (h : sid' ≠ sid) : (revokeSessionAndFamily s sid fid ttl now).entry (.sessionRevoked sid') =
      s.entry (.sessionRevoked sid') := by
  unfold revokeSessionAndFamily
  dsimp only
  split <;> simp [KeyStore.set, h]

theorem Inv.mark (h : Inv n w) {sid fid : Text} {ttl : τ}
    (hexp : w.expireBy sid (w.base.clock + revocationTTL fid ttl) = true) :
    Inv n { w with base := { w.base with redis := revokeSessionAndFamily w.base.redis sid fid ttl w.base.clock } } := by
  have hmarked : ∀ sid', w.base.redis.entry (.sessionRevoked sid') ≠ none →
      (revokeSessionAndFamily w.base.redis sid fid ttl w.base.clock).entry (.sessionRevoked sid') ≠ none := by
    intro sid' hm
    by_cases hs : sid' = sid
    · simp [hs, entry_revokeSessionAndFamily]
    · rwa [entry_revokeSessionAndFamily_of_ne _ _ _ _ hs]
  refine h.grow ⟨fun _ ht => ht, hmarked, fun _ hv => .inl hv⟩ le_rfl rfl rfl rfl rfl rfl (fun tok htok e he => ?_)
    fun v hv => hmarked _ (h.revocations v hv)
  by_cases hs : tok.claims.sessionId = sid
  · rw [hs, entry_revokeSessionAndFamily] at he
    cases he
    simpa [hs] using all_eq_true.mp hexp tok htok
  · rw [entry_revokeSessionAndFamily_of_ne _ _ _ _ hs] at he
    exact h.markers tok htok e he

variable {issuers : Nat → Issuer τ}

theorem Inv.advanceCall (h : Inv (w.tick + 1) w)
    (hcov : w.covered issuers (.base (.advance r ids)) = true) (hs : w.base.advance issuers r ids = some b) :
    Inv (w.tick + 1) (w.finish b (.advance r ids)) := by
  have hok := h.calls r
  unfold advance at hs
  split at hs
  case h_1 hproc | h_5 hproc =>
    cases hs
    rw [hproc] at hok
    exact h.moved hproc (hok.next rfl rfl) rfl rfl
  case h_2 c _ hproc | h_4 c hproc =>
    cases hs
    rw [hproc] at hok
    have hlt : w.base.clock < c.expiresAt + 1 := by simpa [covered, hproc] using hcov
    cases hrevoked : w.base.sessionIsRevoked c.sessionId with
    | true =>
      exact h.moved hproc (.ended rfl rfl) rfl rfl
    | false =>
      have hc := h.unrevoked (hok.issued c rfl) hlt hrevoked (w.started r)
      exact h.moved hproc (hok.checkedBy rfl hc rfl rfl) rfl rfl
  case h_3 i c ttlAt hproc =>
    cases hs
    rw [hproc] at hok
    cases hrevoked : w.base.familyIsRevoked c.familyId with
    | true =>
      exact h.moved hproc (.ended rfl rfl) rfl rfl
    | false =>
      exact h.moved hproc (hok.next rfl rfl) rfl rfl
  case h_6 i u c ttlAt hproc =>
    cases hs
    exact h.consumeOnce hproc
  case h_7 i c ttlAt hproc =>
    split at hs
    · cases hs
      exact h.moved hproc (.ended rfl rfl) rfl rfl
    · cases hs
      have hexp : w.expireBy c.sessionId (w.base.clock + revocationTTL c.familyId
          (replayRevokeTTL (refreshRemainingTTL c ttlAt) (issuers i).refreshTTL)) = true := by
        simpa [covered, hproc] using hcov
      have hdone := ((h.mark hexp).moveCall (r := r) (p := .failed .invalidToken) (.ended rfl rfl)).complete
        (v := ⟨c.sessionId, w.tick⟩) (by simp [setProc, entry_revokeSessionAndFamily]) le_rfl w.accessRevoked
      simpa [finish, hproc, succeededBy, revokedBy] using hdone
  case h_8 i c hproc =>
    cases hs
    rw [hproc] at hok
    have hlt := hok.started_lt.resolve_right (by simp [Proc.checked])
    have hout : w.pairOutlived issuers i ⟨c.subject, c.orgId, c.permissions, c.familyId, c.sessionId⟩ ids = true := by
      simpa [covered, hproc] using hcov
    simp only [pairOutlived, Bool.and_eq_true] at hout
    have hissue := (h.succeed hlt (hok.unrevoked c rfl)).issue
      (forall_mem_cons.mpr ⟨hout.1, forall_mem_singleton.mpr hout.2⟩)
    simp only [finish, hproc, procs_setProc_self]
    exact hissue.moveCall (r := r) (p := .succeeded) (.ended rfl rfl)
  case h_9 => cases hs

theorem verify_eq_ok {i : Issuer τ} {tok : RawToken} {kind : SessionKind} {now : τ}
    (h : i.verify tok kind now = .ok c) : c = tok.claims := by
  unfold Issuer.verify at h
  dsimp only at h
  split_ifs at h
  split at h
  · cases h
  · exact (Except.ok.inj h).symm

theorem verifyRefreshToken_eq_ok {i : Issuer τ} {tok : RawToken} {now : τ}
    (h : i.verifyRefreshToken tok now = .ok c) : c = tok.claims := by
  unfold Issuer.verifyRefreshToken at h
  split at h
  · cases h
  · rename_i c' hv
    split_ifs at h
    cases h
    exact verify_eq_ok hv

theorem Inv.baseStep (h : Inv (w.tick + 1) w) {a : Action τ}
    (hcov : w.covered issuers (.base a) = true) (hadm : a.admissible w.base.issued = true)
    (hs : w.base.step issuers a = some b) : Inv (w.tick + 1) (w.finish b a) := by
  cases a with
  | tick d =>
    simp only [World.step] at hs
    split_ifs at hs
    cases hs
    exact h.store fun _ => rfl
  | login i p ids =>
    cases hs
    simp only [covered, pairOutlived, Bool.and_eq_true] at hcov
    exact h.issue (forall_mem_cons.mpr ⟨hcov.1, forall_mem_singleton.mpr hcov.2⟩)
  | stepUp i p jti sessionId =>
    cases hs
    exact h.issue (forall_mem_singleton.mpr hcov)
  | logout i sessionId familyId => cases hadm
  | refreshPair r i tok =>
    refine h.start (fun p hp => ?_) hs
    cases hv : (issuers i).verifyRefreshToken tok w.base.clock with
    | error e => simp [hv, Except.map] at hp
    | ok c =>
      obtain rfl : .refreshTTL i c = p := by simpa [hv, Except.map] using hp
      refine ⟨rfl, fun c' hc' => ⟨tok, by simpa [Action.admissible] using hadm, ?_⟩⟩
      rw [← some.inj hc', verifyRefreshToken_eq_ok hv]
  | consumeStepUp r i tok expect =>
    refine h.start (fun p hp => ?_) hs
    split at hp
    · cases hp
    · rename_i c hv
      split_ifs at hp
      cases hp
      refine ⟨rfl, fun c' hc' => ⟨tok, by simpa [Action.admissible] using hadm, ?_⟩⟩
      rw [← some.inj hc', verify_eq_ok hv]
  | advance r ids => exact h.advanceCall hcov hs
  | fail r =>
    simp only [World.step] at hs
    split at hs
    case h_4 =>
      cases hs
      exact h.moveCall (.ended rfl rfl)
    all_goals cases hs

theorem Inv.advanceAccess (h : Inv n w) (hcov : w.covered issuers (.advanceAccess r) = true)
    (hs : w.advanceAccess r = some w') : Inv n w' := by
  have hok := h.accessCalls r
  unfold System.advanceAccess at hs
  split at hs
  case h_1 c started hcall =>
    cases hs
    rw [hcall] at hok
    have hlt : w.base.clock < c.expiresAt + 1 := by simpa [covered, hcall] using hcov
    refine h.setAccess ?_
    cases hrevoked : w.base.sessionIsRevoked c.sessionId with
    | true => trivial
    | false => exact ⟨hok.1, h.unrevoked hok.2 hlt hrevoked started⟩
  case h_2 c started hcall =>
    cases hs
    rw [hcall] at hok
    refine h.setAccess ?_
    split_ifs
    · trivial
    · exact hok
  case h_3 c started hcall =>
    rw [hcall] at hok
    split_ifs at hs
    · cases hs
      exact h.setAccess trivial
    · cases hs
      exact (h.succeed hok.1 hok.2).setAccess trivial
  all_goals cases hs

theorem Inv.advanceRevoke (h : Inv (w.tick + 1) w)
    (hcov : w.covered issuers (.advanceRevoke r) = true) (hs : w.advanceRevoke issuers r = some w') :
    Inv (w.tick + 1) w' := by
  have hok := h.revokeCalls r
  unfold System.advanceRevoke at hs
  split at hs
  case h_1 i sid fid jti hcall =>
    split_ifs at hs
    · cases hs
      exact h.setRevoke trivial
    · cases hs
      refine (h.mark (by simpa [covered, hcall] using hcov)).setRevoke ?_
      simp [RevokeOk, entry_revokeSessionAndFamily]
  case h_2 i sid jti hcall =>
    cases hs
    rw [hcall] at hok
    exact (h.complete (v := ⟨sid, w.tick⟩) hok le_rfl _).setRevoke trivial
  case h_3 => cases hs

theorem Inv.act (h : Inv (w.tick + 1) w) {a : SystemAction τ} (hcov : w.covered issuers a = true)
    (hs : w.act issuers a = some w') : Inv (w.tick + 1) w' := by
  cases a with
  | base a =>
    simp only [System.act] at hs
    split_ifs at hs with hadm
    obtain ⟨b, hb, rfl⟩ := map_eq_some_iff.mp hs
    exact h.baseStep hcov hadm hb
  | validateAccess r i tok =>
    simp only [System.act] at hs
    split at hs
    · split_ifs at hs with htok
      split at hs
      · rename_i c hv
        cases hs
        exact h.setAccess ⟨Nat.lt_succ_self _, tok, htok, (verify_eq_ok hv).symm⟩
      · cases hs
        exact h.setAccess trivial
    · cases hs
  | advanceAccess r => exact h.advanceAccess hcov hs
  | failAccess r =>
    simp only [System.act] at hs
    split at hs
    case h_4 => cases hs
    all_goals
      cases hs
      exact h.setAccess trivial
  | revokeSession r i sid fid jti =>
    simp only [System.act] at hs
    split at hs
    · cases hs
      exact h.setRevoke trivial
    · cases hs
  | advanceRevoke r => exact h.advanceRevoke hcov hs
  | failRevoke r =>
    cases hs
    exact h.setRevoke trivial

theorem inv_of_covered (hr : ((systemMachine issuers).restrict (covered issuers)).Reachable w) : Inv w.tick w := by
  refine hr.invariant (P := fun w => Inv w.tick w) (fun w hw => ?_) fun w a w' h hs => ?_
  · obtain ⟨⟨hredis, hprocs, -⟩, -, haccess, hrevoke, hrev, hsucc⟩ := hw
    refine ⟨fun _ _ e he => ?_, fun r => ?_, fun r => ?_, fun r => ?_, by simp [hrev], by simp [hsucc]⟩
    · rw [hredis] at he
      cases he
    · rw [hprocs]
      exact .ended rfl rfl
    · rw [haccess]
      trivial
    · rw [hrevoke]
      trivial
  · obtain ⟨hcov, hs⟩ := Machine.restrict_step_eq_some.mp hs
    obtain ⟨v, hv, rfl⟩ := map_eq_some_iff.mp (show (w.act issuers a).map _ = some w' from hs)
    exact ((h.setTick (Nat.le_succ _) w.tick).act hcov hv).setTick le_rfl _

end Markers

end System

end IbexHarness.Session
