import IbexHarness.Idempotency.Redis

/-! Under `World.timely` the pending record of an unexpired claim stays until its request finishes it. -/

namespace IbexHarness.Idempotency.Redis

open Lib List Option KeyStore

def CasStep.watched : CasStep → Option Nat
  | .watch => none
  | .get rev | .exec rev => some rev

inductive Effect (s : RedisStore) (w : World) : World → Prop where
  | tick (d : Nat) : Effect s w { w with clock := w.clock + d }
  /-- a request moves on; a claim in hand is kept or given up -/
  | moved (r : Nat) (p : Proc) (hgrant : ∀ g, p.grant = some g → (w.procs r).grant = some g)
      (hseen : ∀ g f n rev, p = .cas g f n (.exec rev) →
        ∃ e, w.redis.entry g.key = some e ∧ casMatches g.own e.value = true)
      (hwatched : ∀ g f n c rev, p = .cas g f n c → c.watched = some rev → rev = w.redis.rev g.key ∨
        ∃ f n c, w.procs r = .cas g f n c ∧ c.watched = some rev) :
      Effect s w (w.setProc r p)
  | granted (r : Nat) (own : PendingOwner) (habsent : w.redis.get w.clock own.redisKey = none) :
      Effect s w ({ w with
        redis := w.redis.set own.redisKey (pendingRecord own.fingerprint) (w.clock + s.pendingTTL)
        log := .granted r own.redisKey (w.redis.rev own.redisKey + 1) :: w.log }.setProc r
          (.owner ⟨own, w.redis.rev own.redisKey + 1, w.clock⟩))
  | lost (r : Nat) (own : PendingOwner) (habsent : w.redis.get w.clock own.redisKey = none) :
      Effect s w ({ w with
        redis := w.redis.set own.redisKey (pendingRecord own.fingerprint) (w.clock + s.pendingTTL) }.setProc r .failed)
  | settled (r : Nat) (g : Grant) (f : Finish) (n rev : Nat) (hproc : w.procs r = .cas g f n (.exec rev))
      (hrev : w.redis.rev g.key = rev) (hlive : (w.redis.get w.clock g.key).isSome = true)
      (htimely : w.timely s (.exec r) = true) :
      Effect s w ({ w with redis := w.mutate s g f, log := .settled r g.key rev :: w.log }.setProc r .finished)

namespace World

variable {s : RedisStore} {w w' : World}

variable {r n rev : Nat} {g : Grant} {p : Proc} {f : Finish} {k : Token}

theorem start_effect (f : Finish) (n : Nat) (hg : (w.procs r).grant = some g) :
    Effect s w (w.setProc r (.cas g f n .watch)) := by
  refine .moved r _ ?_ (by simp) ?_
  · rintro g' ⟨⟩
    exact hg
  · rintro g' f' n' c rev ⟨⟩ hc
    cases hc

theorem dropped_effect (r : Nat) (hp : p.grant = none) : Effect s w (w.setProc r p) := by
  refine .moved r p (fun g hg => ?_) ?_ ?_
  · rw [hp] at hg
    cases hg
  · rintro g f n rev rfl
    cases hp
  · rintro g f n c rev rfl
    cases hp

theorem tryClaimPending_effect (r : Nat) (own : PendingOwner) (reply : Bool) :
    Effect s w (w.tryClaimPending s r own reply) := by
  unfold tryClaimPending
  cases hset : w.redis.setNX w.clock own.redisKey (pendingRecord own.fingerprint) (w.clock + s.pendingTTL) with
  | none => cases reply <;> exact dropped_effect r rfl
  | some redis =>
    obtain ⟨habsent, rfl⟩ := setNX_eq_some.mp hset
    cases reply with
    | true =>
      have hrev : (w.redis.set own.redisKey (pendingRecord own.fingerprint) (w.clock + s.pendingTTL)).rev
          own.redisKey = w.redis.rev own.redisKey + 1 := rev_put_self _ _ _
      simp only [if_true, hrev]
      exact .granted r own habsent
    | false => exact .lost r own habsent

theorem inspectExisting_effect (r : Nat) (own : PendingOwner) : Effect s w (w.inspectExisting r own) := by
  unfold inspectExisting
  split
  · exact dropped_effect r rfl
  · split <;> exact dropped_effect r rfl

theorem decodeRecord_eq_some {raw rec : Record} (h : decodeRecord raw = some rec) : rec = raw := by
  simp only [decodeRecord] at h
  split at h
  · exact (some.inj h).symm
  · cases h

theorem casGet_effect (hproc : w.procs r = .cas g f n (.get rev)) : Effect s w (w.casGet r g f n rev) := by
  unfold casGet
  split
  · exact dropped_effect r rfl
  · rename_i raw hraw
    split
    · rename_i rec hrec
      obtain rfl := decodeRecord_eq_some hrec
      obtain ⟨e, he, -, hval⟩ := get_eq_some.mp hraw
      split
      · rename_i hmatch
        refine .moved r _ (by simp [Proc.grant, hproc]) ?_ ?_
        · intro g' f' n' rev' heq
          cases heq
          exact ⟨e, he, hval ▸ hmatch⟩
        · intro g' f' n' c rev' heq hc
          cases heq
          exact .inr ⟨f, n, .get rev, hproc, hc⟩
      · exact dropped_effect r rfl
    · exact dropped_effect r rfl

theorem exec_effect (hproc : w.procs r = .cas g f n (.exec rev))
    (ht : w.timely s (.exec r) = true) : Effect s w (w.exec s r g f n rev) := by
  unfold exec
  split
  · rename_i hok
    exact .settled r g f n rev hproc hok.1 hok.2 ht
  · split
    · exact start_effect f (n + 1) (by rw [hproc]; rfl)
    · exact dropped_effect r rfl

theorem step_effect {act : Action} (ht : w.timely s act = true) (h : w.step s act = some w') : Effect s w w' := by
  cases act with
  | tick d =>
    cases h
    exact .tick d
  | claim r own =>
    simp only [step] at h
    split at h <;> cases h
    split <;> exact dropped_effect r rfl
  | setNX r reply =>
    simp only [step] at h
    split at h <;> cases h
    exact tryClaimPending_effect r _ reply
  | get r =>
    simp only [step] at h
    split at h <;> cases h
    exact inspectExisting_effect r _
  | finish | abandon =>
    simp only [step] at h
    split at h <;> cases h
    rename_i hproc
    exact start_effect _ 0 (by rw [hproc]; rfl)
  | watch r =>
    simp only [step] at h
    split at h <;> cases h
    rename_i g f n hproc
    refine .moved r _ (by simp [Proc.grant, hproc]) (by simp) ?_
    rintro g' f' n' c rev heq hc
    cases heq
    exact .inl (some.inj hc).symm
  | casGet r =>
    simp only [step] at h
    split at h <;> cases h
    rename_i hproc
    exact casGet_effect hproc
  | exec r =>
    simp only [step] at h
    split at h <;> cases h
    rename_i hproc
    exact exec_effect hproc ht
  | fail r =>
    simp only [step, fail] at h
    split at h <;> cases h
    all_goals exact dropped_effect r rfl

structure OwnerInv (s : RedisStore) (w : World) : Prop where
  /-- an unexpired claim is in Redis, untouched -/
  held : ∀ r g, (w.procs r).grant = some g → w.unexpired s g = true →
    w.redis.rev g.key = g.rev ∧ ∃ e, w.redis.entry g.key = some e ∧ e.expiresAt = g.since + s.pendingTTL
  /-- what the `GET` of a transaction saw is there as long as the key was not written -/
  seen : ∀ r g f n rev, w.procs r = .cas g f n (.exec rev) → w.redis.rev g.key = rev →
    ∃ e, w.redis.entry g.key = some e ∧ casMatches g.own e.value = true
  watched_le : ∀ r g f n c rev, w.procs r = .cas g f n c → c.watched = some rev → rev ≤ w.redis.rev g.key
  granted : ∀ r g, (w.procs r).grant = some g → .granted r g.key g.rev ∈ w.log
  granted_le : ∀ r k n, .granted r k n ∈ w.log → n ≤ w.redis.rev k
  granted_unique : ∀ r r' k n, .granted r k n ∈ w.log → .granted r' k n ∈ w.log → r = r'
  own : ∀ r k n, .settled r k n ∈ w.log → .granted r k n ∈ w.log

theorem procs_setProc_self (w : World) (r : Nat) (p : Proc) : (w.setProc r p).procs r = p := by
  simp [setProc]

theorem procs_setProc_of_ne (w : World) {r' : Nat} (p : Proc) (h : r' ≠ r) :
    (w.setProc r p).procs r' = w.procs r' := by
  simp [setProc, h]

section

variable (h : OwnerInv s w)
include h

theorem OwnerInv.exclusive {r' : Nat} {g' : Grant} (hg : (w.procs r).grant = some g)
    (hg' : (w.procs r').grant = some g') (hkey : g.key = g'.key) (hu : w.unexpired s g = true)
    (hu' : w.unexpired s g' = true) : r = r' := by
  have hrev := (h.held r g hg hu).1
  have hrev' := (h.held r' g' hg' hu').1
  have hlog := h.granted r g hg
  rw [hkey] at hrev hlog
  rw [hrev.symm.trans hrev'] at hlog
  exact h.granted_unique r r' g'.key g'.rev hlog (h.granted r' g' hg')

theorem OwnerInv.key_ne (hg : (w.procs r).grant = some g)
    (hu : w.unexpired s g = true) (habsent : w.redis.get w.clock k = none) : g.key ≠ k := by
  rintro rfl
  obtain ⟨-, e, he, hexp⟩ := h.held r g hg hu
  refine get_ne_none he ?_ habsent
  rw [hexp]
  exact of_decide_eq_true hu

theorem OwnerInv.moved (hgrant : ∀ g, p.grant = some g → (w.procs r).grant = some g)
    (hseen : ∀ g f n rev, p = .cas g f n (.exec rev) →
      ∃ e, w.redis.entry g.key = some e ∧ casMatches g.own e.value = true)
    (hwatched : ∀ g f n c rev, p = .cas g f n c → c.watched = some rev → rev ≤ w.redis.rev g.key) :
    OwnerInv s (w.setProc r p) := by
  have hback : ∀ r' g, ((w.setProc r p).procs r').grant = some g → (w.procs r').grant = some g := by
    intro r' g hg
    by_cases hr : r' = r
    · subst hr
      rw [procs_setProc_self] at hg
      exact hgrant g hg
    · rwa [procs_setProc_of_ne w p hr] at hg
  refine ⟨fun r' g hg => h.held r' g (hback r' g hg), ?_, ?_, fun r' g hg => h.granted r' g (hback r' g hg),
    h.granted_le, h.granted_unique, h.own⟩
  · intro r' g f n rev hp hrev
    by_cases hr : r' = r
    · subst hr
      rw [procs_setProc_self] at hp
      exact hseen g f n rev hp
    · rw [procs_setProc_of_ne w p hr] at hp
      exact h.seen r' g f n rev hp hrev
  · intro r' g f n c rev hp hc
    by_cases hr : r' = r
    · subst hr
      rw [procs_setProc_self] at hp
      exact hwatched g f n c rev hp hc
    · rw [procs_setProc_of_ne w p hr] at hp
      exact h.watched_le r' g f n c rev hp hc

theorem OwnerInv.put {e : Option (Expiring Record Int)} {log : List Event} (hp : p.grant = none)
    (hfree : ∀ r' g, r' ≠ r → (w.procs r').grant = some g → w.unexpired s g = true → g.key ≠ k)
    (hmono : ∀ r' k' n, .granted r' k' n ∈ w.log → .granted r' k' n ∈ log)
    (hle : ∀ r' k' n, .granted r' k' n ∈ log → n ≤ (w.redis.put k e).rev k')
    (hunique : ∀ r₁ r₂ k' n, .granted r₁ k' n ∈ log → .granted r₂ k' n ∈ log → r₁ = r₂)
    (hown : ∀ r' k' n, .settled r' k' n ∈ log → .granted r' k' n ∈ log) :
    OwnerInv s ({ w with redis := w.redis.put k e, log := log }.setProc r p) := by
  have hback : ∀ r' g, (({ w with redis := w.redis.put k e, log := log }.setProc r p).procs r').grant = some g →
      r' ≠ r ∧ (w.procs r').grant = some g := by
    intro r' g hg
    by_cases hr : r' = r
    · subst hr
      rw [procs_setProc_self, hp] at hg
      cases hg
    · rw [procs_setProc_of_ne _ p hr] at hg
      exact ⟨hr, hg⟩
  have hcas : ∀ r' g f n c, ({ w with redis := w.redis.put k e, log := log }.setProc r p).procs r' = .cas g f n c →
      w.procs r' = .cas g f n c := by
    intro r' g f n c hproc
    have hr := (hback r' g (by rw [hproc]; rfl)).1
    rwa [procs_setProc_of_ne _ p hr] at hproc
  refine ⟨?_, ?_, ?_, ?_, hle, hunique, hown⟩
  · intro r' g hg hu
    obtain ⟨hr, hg⟩ := hback r' g hg
    have hk := hfree r' g hr hg hu
    have hheld := h.held r' g hg hu
    simpa [setProc, hk] using hheld
  · -- the transaction watched an older revision of a key that is written
    intro r' g f n rev hproc hrev
    have hproc' := hcas r' g f n _ hproc
    have hle := h.watched_le r' g f n _ rev hproc' rfl
    have hk : g.key ≠ k := by
      rintro rfl
      simp only [setProc, rev_put_self] at hrev
      omega
    simp only [setProc, rev_put_of_ne _ _ hk] at hrev
    simpa [setProc, hk] using h.seen r' g f n rev hproc' hrev
  · intro r' g f n c rev hproc hc
    exact (h.watched_le r' g f n c rev (hcas r' g f n c hproc) hc).trans (rev_le_put w.redis k g.key e)
  · intro r' g hg
    exact hmono r' g.key g.rev (h.granted r' g (hback r' g hg).2)

theorem OwnerInv.grant (hrev : w.redis.rev g.key = g.rev)
    (hentry : ∃ e, w.redis.entry g.key = some e ∧ e.expiresAt = g.since + s.pendingTTL)
    (hlog : .granted r g.key g.rev ∈ w.log) : OwnerInv s (w.setProc r (.owner g)) := by
  have hback : ∀ r' g', ((w.setProc r (.owner g)).procs r').grant = some g' →
      (r' = r ∧ g' = g) ∨ (w.procs r').grant = some g' := by
    intro r' g' hg
    by_cases hr : r' = r
    · subst hr
      rw [procs_setProc_self] at hg
      exact .inl ⟨rfl, (some.inj hg).symm⟩
    · rw [procs_setProc_of_ne _ _ hr] at hg
      exact .inr hg
  have hcas : ∀ r' g' f n c, (w.setProc r (.owner g)).procs r' = .cas g' f n c → w.procs r' = .cas g' f n c := by
    intro r' g' f n c hproc
    have hr : r' ≠ r := by
      rintro rfl
      simp [procs_setProc_self] at hproc
    rwa [procs_setProc_of_ne _ _ hr] at hproc
  refine ⟨?_, fun r' g' f n rev hp => h.seen r' g' f n rev (hcas r' g' f n _ hp),
    fun r' g' f n c rev hp => h.watched_le r' g' f n c rev (hcas r' g' f n c hp), ?_, h.granted_le,
    h.granted_unique, h.own⟩
  · intro r' g' hg hu
    rcases hback r' g' hg with ⟨rfl, rfl⟩ | hg
    · exact ⟨hrev, hentry⟩
    · exact h.held r' g' hg hu
  · intro r' g' hg
    rcases hback r' g' hg with ⟨rfl, rfl⟩ | hg
    · exact hlog
    · exact h.granted r' g' hg

theorem OwnerInv.settled_own
    (hproc : w.procs r = .cas g f n (.exec rev)) (hrev : w.redis.rev g.key = rev)
    (hlive : (w.redis.get w.clock g.key).isSome = true) (ht : w.timely s (.exec r) = true) :
    w.unexpired s g = true ∧ g.rev = rev := by
  have hg : (w.procs r).grant = some g := by rw [hproc]; rfl
  obtain ⟨e, he, hmatch⟩ := h.seen r g f n rev hproc hrev
  obtain ⟨v, hv⟩ := isSome_iff_exists.mp hlive
  obtain ⟨e', he', -, rfl⟩ := get_eq_some.mp hv
  obtain rfl := some.inj (he.symm.trans he')
  simp only [timely, hg, hv, any_some, hmatch, Bool.not_true, Bool.or_false] at ht
  exact ⟨ht, (h.held r g hg ht).1.symm.trans hrev⟩

theorem OwnerInv.granted_unique_cons (r₁ r₂ : Nat) (k' : Token) (n : Nat)
    (h₁ : .granted r₁ k' n ∈ Event.granted r k (w.redis.rev k + 1) :: w.log)
    (h₂ : .granted r₂ k' n ∈ Event.granted r k (w.redis.rev k + 1) :: w.log) : r₁ = r₂ := by
  have hlast : ∀ r', .granted r' k (w.redis.rev k + 1) ∉ w.log :=
    fun r' hx => Nat.not_succ_le_self _ (h.granted_le r' k _ hx)
  simp only [mem_cons, Event.granted.injEq] at h₁ h₂
  rcases h₁ with ⟨rfl, rfl, rfl⟩ | h₁
  · rcases h₂ with ⟨rfl, -, -⟩ | h₂
    · rfl
    · exact absurd h₂ (hlast r₂)
  · rcases h₂ with ⟨rfl, rfl, rfl⟩ | h₂
    · exact absurd h₁ (hlast r₁)
    · exact h.granted_unique r₁ r₂ k' n h₁ h₂

theorem OwnerInv.granted_step (r : Nat) {own : PendingOwner}
    (habsent : w.redis.get w.clock own.redisKey = none) :
    OwnerInv s ({ w with
      redis := w.redis.set own.redisKey (pendingRecord own.fingerprint) (w.clock + s.pendingTTL)
      log := .granted r own.redisKey (w.redis.rev own.redisKey + 1) :: w.log }.setProc r
        (.owner ⟨own, w.redis.rev own.redisKey + 1, w.clock⟩)) := by
  have hput := h.put (k := own.redisKey) (e := some ⟨pendingRecord own.fingerprint, w.clock + s.pendingTTL⟩)
    (r := r) (p := .failed) rfl (fun r' g _ hg hu => h.key_ne hg hu habsent)
    (fun r' k' n hx => mem_cons_of_mem (.granted r own.redisKey (w.redis.rev own.redisKey + 1)) hx)
    ?_ h.granted_unique_cons (fun r' k' n hx => mem_cons_of_mem _ (h.own r' k' n (by simpa using hx)))
  · have hgrant := hput.grant (r := r) (g := ⟨own, w.redis.rev own.redisKey + 1, w.clock⟩)
      (rev_put_self _ _ _) ⟨_, entry_put_self _ _ _, rfl⟩ mem_cons_self
    simpa [setProc, KeyStore.set] using hgrant
  · intro r' k' n hx
    rcases mem_cons.mp hx with heq | hx
    · cases heq
      simp
    · exact (h.granted_le r' k' n hx).trans (rev_le_put _ _ _ _)

theorem OwnerInv.settled_step
    (hg : (w.procs r).grant = some g) (hu : w.unexpired s g = true) (hown : g.rev = rev)
    (e : Option (Expiring Record Int)) :
    OwnerInv s ({ w with redis := w.redis.put g.key e, log := .settled r g.key rev :: w.log }.setProc r .finished) := by
  have hback : ∀ r' k' n, .granted r' k' n ∈ Event.settled r g.key rev :: w.log → .granted r' k' n ∈ w.log := by
    simp
  refine h.put rfl (fun r' g' hr hg' hu' hkey => hr (h.exclusive hg' hg hkey hu' hu))
    (fun r' k' n hx => mem_cons_of_mem _ hx)
    (fun r' k' n hx => (h.granted_le r' k' n (hback r' k' n hx)).trans (rev_le_put _ _ _ _))
    (fun r₁ r₂ k' n h₁ h₂ => h.granted_unique r₁ r₂ k' n (hback r₁ k' n h₁) (hback r₂ k' n h₂)) ?_
  intro r' k' n hx
  refine mem_cons_of_mem _ ?_
  rcases mem_cons.mp hx with heq | hx
  · obtain ⟨rfl, rfl, rfl⟩ := Event.settled.inj heq
    exact hown ▸ h.granted r' g hg
  · exact h.own r' k' n hx

theorem OwnerInv.step (hs : Effect s w w') : OwnerInv s w' := by
  cases hs with
  | tick d =>
    refine ⟨fun r g hg hu => h.held r g hg ?_, h.seen, h.watched_le, h.granted, h.granted_le, h.granted_unique, h.own⟩
    simp only [unexpired, decide_eq_true_eq] at hu ⊢
    omega
  | moved r p hgrant hseen hwatched =>
    refine h.moved hgrant hseen fun g f n c rev hp hc => ?_
    rcases hwatched g f n c rev hp hc with rfl | ⟨f', n', c', hproc, hc'⟩
    · exact Nat.le_refl _
    · exact h.watched_le r g f' n' c' rev hproc hc'
  | granted r own habsent => exact h.granted_step r habsent
  | lost r own habsent =>
    exact h.put rfl (fun r' g _ hg hu => h.key_ne hg hu habsent) (fun r' k' n hx => hx)
      (fun r' k' n hx => (h.granted_le r' k' n hx).trans (rev_le_put _ _ _ _)) h.granted_unique h.own
  | settled r g f n rev hproc hrev hlive htimely =>
    have hg : (w.procs r).grant = some g := by rw [hproc]; rfl
    obtain ⟨hu, hown⟩ := h.settled_own hproc hrev hlive htimely
    cases f with
    | commit | release => exact h.settled_step hg hu hown _

end

theorem ownerInv (h : ((machine s).restrict (timely s)).Reachable w) : OwnerInv s w := by
  refine h.invariant (P := OwnerInv s) ?_ ?_
  · rintro w ⟨-, hp, hl⟩
    constructor <;> simp [hp, hl, Proc.grant]
  · intro w act w' hi hs
    obtain ⟨ht, hs⟩ := Machine.restrict_step_eq_some.mp hs
    exact hi.step (step_effect ht hs)

end World

end IbexHarness.Idempotency.Redis
