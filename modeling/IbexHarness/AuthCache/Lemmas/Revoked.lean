import IbexHarness.AuthCache.Validator

/-! No operation of an index shortens a tombstone, and no removal adds an entry to the LRU. -/

namespace IbexHarness.AuthCache

section

open Lib World

theorem cacheTTL_le (cfg : Config) (res : Result) (now : Int) : cacheTTL cfg res now ≤ cfg.lruMaxTTL := by
  unfold cacheTTL
  split
  · exact le_rfl
  · split_ifs with h
    · exact h.le
    · exact le_rfl

section Refuses

variable {now e : Int}

theorem TokenIndex.tomb_put {idx : TokenIndex} {k : Text} (h : idx.tomb.Refuses now k e) (tokenID : Text)
    (hash : Digest) : (idx.put tokenID hash now).1.tomb.Refuses now k e := by
  unfold TokenIndex.put
  split_ifs
  · exact h
  · exact h
  · exact h.forget

@[simp] theorem TokenIndex.tomb_removeDigest (idx : TokenIndex) (hash : Digest) (tokenID : Text) :
    (idx.removeDigest hash tokenID).tomb = idx.tomb := by
  unfold TokenIndex.removeDigest
  split_ifs <;> rfl

theorem OrgIndex.tomb_put {idx : OrgIndex} {k : Uuid} (h : idx.tomb.Refuses now k e) (orgID : Uuid)
    (hash : Digest) : (idx.put orgID hash now).1.tomb.Refuses now k e := by
  simp only [OrgIndex.put]
  split_ifs
  · exact h
  · exact h.prune
  · exact h.prune.forget

@[simp] theorem OrgIndex.tomb_removeDigest (idx : OrgIndex) (orgID : Uuid) (hash : Digest) :
    (idx.removeDigest orgID hash).tomb = idx.tomb := by
  unfold OrgIndex.removeDigest
  split_ifs <;> rfl

end Refuses

variable {procs : Nat} {cache : Lru Digest CachedEntry} {w : World procs cache}

def World.Refuses (w : World procs cache) (t : Tombstone) : Prop :=
  match t.subject with
  | .token tokenID => tokenID ≠ [] ∧ w.tokenIdx.tomb.Refuses w.clock tokenID t.expiry
  | .org orgID => orgID ≠ 0 ∧ w.orgIdx.tomb.Refuses w.clock orgID t.expiry

def Subject.check : Subject → Check
  | .token _ => .token
  | .org _ => .org

theorem World.Refuses.blocks {t : Tombstone} (h : w.Refuses t) (hlive : w.clock < t.expiry) {entry : CachedEntry}
    (hsub : entry.result.concerns t.subject = true) : w.passes entry t.subject.check = false := by
  obtain ⟨subject, began, expiry⟩ := t
  cases subject with
  | token tokenID =>
    obtain rfl : entry.result.tokenID = tokenID := by simpa [Result.concerns] using hsub
    simpa [passes, Subject.check, TokenIndex.isRevoked, h.1] using h.2.live hlive
  | org orgID =>
    obtain rfl : entry.result.orgID = orgID := by simpa [Result.concerns] using hsub
    simpa [passes, Subject.check, OrgIndex.isSuspended, h.1] using h.2.live hlive

theorem World.Refuses.congr {w' : World procs cache} {t : Tombstone} (h : w.Refuses t)
    (hclock : w.clock ≤ w'.clock) (htoken : w'.tokenIdx.tomb = w.tokenIdx.tomb)
    (horg : w'.orgIdx.tomb = w.orgIdx.tomb) : w'.Refuses t := by
  unfold World.Refuses at h ⊢
  rw [htoken, horg]
  split at h <;> exact ⟨h.1, h.2.later hclock⟩

theorem World.remove_tombs (w : World procs cache) (r : Removal) :
    (w.remove r).1.tokenIdx.tomb = w.tokenIdx.tomb ∧ (w.remove r).1.orgIdx.tomb = w.orgIdx.tomb := by
  cases r with
  | drop | lru =>
    simp only [remove]
    split <;> exact ⟨rfl, rfl⟩
  | token hash tokenID => exact ⟨TokenIndex.tomb_removeDigest _ _ _, rfl⟩
  | org orgID hash => exact ⟨rfl, OrgIndex.tomb_removeDigest _ _ _⟩

theorem World.remove_eq (w : World procs cache) (r : Removal) : (w.remove r).1 = { w with
      tokenIdx := (w.remove r).1.tokenIdx, orgIdx := (w.remove r).1.orgIdx, lru := (w.remove r).1.lru } := by
  cases r with
  | drop | lru =>
    simp only [remove]
    split <;> rfl
  | token | org => rfl

theorem World.mem_remove {r : Removal} {p : Digest × CachedEntry} (h : p ∈ cache.items (w.remove r).1.lru) :
    p ∈ cache.items w.lru ∧ r ≠ .lru p.1 := by
  cases r with
  | drop hash =>
    simp only [remove] at h
    split at h
    · exact ⟨h, by simp⟩
    · exact ⟨cache.mem_get h, by simp⟩
  | token | org => exact ⟨h, by simp⟩
  | lru hash =>
    simp only [remove] at h
    split at h
    · rename_i hnone
      exact ⟨h, by simpa using (cache.ne_of_peek_eq_none hnone h).symm⟩
    · obtain ⟨hmem, hne⟩ := cache.mem_remove.mp h
      exact ⟨hmem, by simpa using hne.symm⟩

end

/-! An entry older than a tombstone expires no later than it, or is guarded by a call that has its re-check to do. -/

open Lib List

variable {procs : Nat} {cache : Lru Digest CachedEntry} {cfg : Config} {n : Nat} {w : World procs cache}

/-- The process will remove the entry `e` of `k`, or find the tombstone of `s`. -/
def Process.Guards (p : Process) (k : Digest) (e : CachedEntry) (s : Subject) : Prop :=
  ∃ c, p = .validate c ∧ c.hash = k ∧ c.started ≤ e.began ∧
    (.lru k ∈ c.removals ∨ ∃ ks, c.stage = .recheck e ks ∧ s.check ∈ ks)

def CachedEntry.Older (e : CachedEntry) (t : Tombstone) : Prop :=
  e.result.concerns t.subject = true ∧ e.began < t.began

/-- A lookup that an invalidation preceded still has a check to do that the entry will fail. -/
def LookupOk (w : World procs cache) (started : Nat) (e : CachedEntry) (got : Int) (ks : List Check) : Prop :=
  ∀ v ∈ w.invalidations, v.returned < started → e.Older v.tombstone →
    got < v.tombstone.expiry ∧ v.tombstone.subject.check ∈ ks ∨ e.expiresAt ≤ got ∧ .expiry ∈ ks

def StageOk (cfg : Config) (w : World procs cache) (started : Nat) : Stage → Prop
  | .check e got ks => got ≤ w.clock ∧ LookupOk w started e got ks
  | .upstream began | .cacheTTL began _ => started ≤ began
  | .putToken began _ ttl | .putOrg began _ ttl | .stamp began _ ttl => started ≤ began ∧ ttl ≤ cfg.lruMaxTTL
  | .add e | .recheck e _ => started ≤ e.began ∧ e.expiresAt ≤ w.clock + cfg.lruMaxTTL
  | .bloomTest | .lruGet | .fetchUpstream | .bloomAdd | .done _ => True

def ProcessOk (cfg : Config) (n : Nat) (w : World procs cache) : Process → Prop
  | .validate c => c.started < n ∧ StageOk cfg w c.started c.stage
  | .revoke s began => s.valid = true ∧ began < n
  | .revoked t _ => t ∈ w.tombstones
  | .idle | .invalidate _ => True

structure TombstoneOk (cfg : Config) (n : Nat) (w : World procs cache) (t : Tombstone) : Prop where
  refuses : w.Refuses t
  began : t.began < n
  le_expiry : w.clockAt t.began + cfg.lruMaxTTL ≤ t.expiry
  expiry_le : t.expiry ≤ w.clock + cfg.lruMaxTTL

structure Inv (cfg : Config) (n : Nat) (w : World procs cache) : Prop where
  clockAt_mono : ∀ a b, a ≤ b → b < n → w.clockAt a ≤ w.clockAt b
  clockAt_le : ∀ a, a < n → w.clockAt a ≤ w.clock
  inTime : ∀ i, (w.procs i).inTime cfg w.clockAt w.clock = true
  procs : ∀ i, ProcessOk cfg n w (w.procs i)
  tombstones : ∀ t ∈ w.tombstones, TombstoneOk cfg n w t
  entries : ∀ p ∈ cache.items w.lru, p.2.expiresAt ≤ w.clock + cfg.lruMaxTTL
  guarded : ∀ p ∈ cache.items w.lru, ∀ t ∈ w.tombstones, p.2.Older t →
    p.2.expiresAt ≤ t.expiry ∨ ∃ i, (w.procs i).Guards p.1 p.2 t.subject
  invalidations : ∀ v ∈ w.invalidations, v.tombstone ∈ w.tombstones
  served : ∀ a ∈ w.served, a.started < n ∧ ∀ v ∈ w.invalidations, v.returned < a.started →
    a.result.concerns v.tombstone.subject = true → v.tombstone.began ≤ a.began

def Call.Returned (c : Call) : Prop := c.removals = [] ∧ ∃ a, c.stage = .done a

variable {t : Tombstone} {i : Fin procs} {w' : World procs cache}

theorem Process.inTime_validate {clockAt : Nat → Int} {now : Int} {c : Call} :
    (Process.validate c).inTime cfg clockAt now = true ↔ c.Returned ∨ now < clockAt c.started + cfg.lruMaxTTL := by
  obtain ⟨hash, started, removals, stage⟩ := c
  cases removals with
  | cons r rs => simp [Process.inTime, Call.Returned]
  | nil => cases stage <;> simp [Process.inTime, Call.Returned]

theorem Inv.lt_expiry (h : Inv cfg n w) (ht : t ∈ w.tombstones) {c : Call}
    (hi : w.procs i = .validate c) (hc : ¬ c.Returned) (hstarted : c.started ≤ t.began) : w.clock < t.expiry :=
  calc w.clock < w.clockAt c.started + cfg.lruMaxTTL :=
      (Process.inTime_validate.mp (hi ▸ h.inTime i)).resolve_left hc
    _ ≤ w.clockAt t.began + cfg.lruMaxTTL :=
      Int.add_le_add_right (h.clockAt_mono _ _ hstarted (h.tombstones t ht).began) _
    _ ≤ t.expiry := (h.tombstones t ht).le_expiry

theorem Inv.expiresAt_le (h : Inv cfg n w) {p : Digest × CachedEntry} (hp : p ∈ cache.items w.lru)
    (ht : t ∈ w.tombstones) (hold : p.2.Older t) (hover : t.expiry ≤ w.clock) : p.2.expiresAt ≤ t.expiry := by
  rcases h.guarded p hp t ht hold with hle | ⟨i, c, hi, -, hstarted, hguard⟩
  · exact hle
  · refine absurd (h.lt_expiry ht hi ?_ (hstarted.trans hold.2.le)) hover.not_gt
    rintro ⟨hnil, a, hdone⟩
    rcases hguard with hmem | ⟨ks, hstage, -⟩
    · simp [hnil] at hmem
    · simp [hdone] at hstage

/-! ## Changes of the world -/

theorem StageOk.grow {started : Nat} {stage : Stage} (h : StageOk cfg w started stage) (hclock : w.clock ≤ w'.clock)
    (hinv : ∀ v ∈ w'.invalidations, v ∈ w.invalidations ∨ started ≤ v.returned) : StageOk cfg w' started stage := by
  cases stage with
  | check e got ks =>
    refine ⟨h.1.trans hclock, fun v hv hret hold => ?_⟩
    rcases hinv v hv with hv | hle
    · exact h.2 v hv hret hold
    · exact absurd hret hle.not_gt
  | add | recheck => exact ⟨h.1, h.2.trans (Int.add_le_add_right hclock _)⟩
  | _ => exact h

theorem ProcessOk.grow {m : Nat} {p : Process} (h : ProcessOk cfg n w p) (hn : n ≤ m)
    (hclock : w.clock ≤ w'.clock) (htombs : ∀ t ∈ w.tombstones, t ∈ w'.tombstones)
    (hinv : ∀ v ∈ w'.invalidations, v ∈ w.invalidations ∨ n ≤ v.returned + 1) : ProcessOk cfg m w' p := by
  cases p with
  | idle | invalidate => trivial
  | validate c =>
    have hstarted := h.1
    exact ⟨by omega, h.2.grow hclock fun v hv => (hinv v hv).imp id (by omega)⟩
  | revoke s began => exact ⟨h.1, Nat.lt_of_lt_of_le h.2 hn⟩
  | revoked t removals => exact htombs t h

theorem TombstoneOk.grow {m : Nat} (h : TombstoneOk cfg n w t)
    (hn : n ≤ m) (hclock : w.clock ≤ w'.clock) (hat : ∀ a < n, w'.clockAt a = w.clockAt a) (hrefuses : w'.Refuses t) :
    TombstoneOk cfg m w' t where
  refuses := hrefuses
  began := Nat.lt_of_lt_of_le h.began hn
  le_expiry := (hat _ h.began).symm ▸ h.le_expiry
  expiry_le := h.expiry_le.trans (Int.add_le_add_right hclock _)

@[simp] theorem World.procs_setProc (w : World procs cache) (i : Fin procs) (p : Process) :
    (w.setProc i p).procs i = p := by
  simp [World.setProc]

@[simp] theorem World.procs_setProc_of_ne {j : Fin procs} (h : j ≠ i) (p : Process) :
    (w.setProc i p).procs j = w.procs j := by
  simp [World.setProc, h]

section

variable (h : Inv cfg n w)
include h

theorem Inv.setProc {p : Process} (hp : ProcessOk cfg n w p)
    (htime : p.inTime cfg w.clockAt w.clock = true)
    (hguard : ∀ q ∈ cache.items w.lru, ∀ t ∈ w.tombstones, q.2.Older t →
      (w.procs i).Guards q.1 q.2 t.subject → p.Guards q.1 q.2 t.subject) : Inv cfg n (w.setProc i p) where
  __ := h
  inTime j := by
    by_cases hj : j = i
    · rw [hj, World.procs_setProc]
      exact htime
    · rw [World.procs_setProc_of_ne hj]
      exact h.inTime j
  procs j := by
    refine ProcessOk.grow (w := w) ?_ le_rfl le_rfl (fun _ ht => ht) fun _ hv => .inl hv
    by_cases hj : j = i
    · subst hj
      simpa using hp
    · simpa [hj] using h.procs j
  tombstones t ht := { h.tombstones t ht with }
  guarded q hq t ht hold := by
    refine (h.guarded q hq t ht hold).imp id fun ⟨j, hj⟩ => ⟨j, ?_⟩
    by_cases hji : j = i
    · subst hji
      simpa using hguard q hq t ht hold hj
    · simpa [hji] using hj

theorem Inv.frame {bloom : BloomFilter} {tokenIdx : TokenIndex} {orgIdx : OrgIndex}
    {lru : cache.State} (hlru : ∀ p ∈ cache.items lru, p ∈ cache.items w.lru)
    (hrefuses : ∀ t, w.Refuses t → { w with tokenIdx := tokenIdx, orgIdx := orgIdx }.Refuses t) :
    Inv cfg n { w with bloom := bloom, tokenIdx := tokenIdx, orgIdx := orgIdx, lru := lru } where
  __ := h
  procs i := (h.procs i).grow le_rfl le_rfl (fun _ ht => ht) fun _ hv => .inl hv
  tombstones t ht := (h.tombstones t ht).grow le_rfl le_rfl (fun _ _ => rfl) (hrefuses t (h.tombstones t ht).refuses)
  entries p hp := h.entries p (hlru p hp)
  guarded p hp := h.guarded p (hlru p hp)

theorem Inv.insert {lru : cache.State} {k : Digest} {e : CachedEntry}
    (hlru : ∀ p ∈ cache.items lru, p = (k, e) ∨ p ∈ cache.items w.lru) (he : e.expiresAt ≤ w.clock + cfg.lruMaxTTL)
    (hguard : ∀ s, ∃ i, (w.procs i).Guards k e s) : Inv cfg n { w with lru := lru } where
  __ := h
  procs i := (h.procs i).grow le_rfl le_rfl (fun _ ht => ht) fun _ hv => .inl hv
  tombstones t ht := { h.tombstones t ht with }
  entries p hp := by
    rcases hlru p hp with rfl | hp
    · exact he
    · exact h.entries p hp
  guarded p hp t ht hold := by
    rcases hlru p hp with rfl | hp
    · exact .inr (hguard t.subject)
    · exact h.guarded p hp t ht hold

theorem Inv.bury (hexpiry : t.expiry = w.clock + cfg.lruMaxTTL) (hbegan : t.began < n)
    {tokenIdx : TokenIndex} {orgIdx : OrgIndex}
    (hrefuses : { w with tokenIdx := tokenIdx, orgIdx := orgIdx }.Refuses t)
    (hkeep : ∀ t', w.Refuses t' → t'.expiry ≤ t.expiry → { w with tokenIdx := tokenIdx, orgIdx := orgIdx }.Refuses t') :
    Inv cfg n { w with tokenIdx := tokenIdx, orgIdx := orgIdx, tombstones := t :: w.tombstones } where
  __ := h
  procs i := (h.procs i).grow le_rfl le_rfl (fun _ ht => List.mem_cons_of_mem _ ht) fun _ hv => .inl hv
  tombstones t' ht' := by
    rcases mem_cons.mp ht' with rfl | ht'
    · refine ⟨hrefuses, hbegan, ?_, hexpiry.le⟩
      rw [hexpiry]
      exact Int.add_le_add_right (h.clockAt_le _ hbegan) _
    · have hok := h.tombstones t' ht'
      exact hok.grow le_rfl le_rfl (fun _ _ => rfl) (hkeep t' hok.refuses (hexpiry ▸ hok.expiry_le))
  guarded p hp t' ht' hold := by
    rcases mem_cons.mp ht' with rfl | ht'
    · exact .inl (hexpiry ▸ h.entries p hp)
    · exact h.guarded p hp t' ht' hold
  invalidations v hv := mem_cons_of_mem _ (h.invalidations v hv)

theorem Inv.serve {a : Served} (hstarted : a.started < n)
    (ha : ∀ v ∈ w.invalidations, v.returned < a.started →
      a.result.concerns v.tombstone.subject = true → v.tombstone.began ≤ a.began) :
    Inv cfg n { w with served := a :: w.served } where
  __ := h
  procs i := (h.procs i).grow le_rfl le_rfl (fun _ ht => ht) fun _ hv => .inl hv
  tombstones t ht := { h.tombstones t ht with }
  served := List.forall_mem_cons.mpr ⟨⟨hstarted, ha⟩, h.served⟩

theorem Inv.invalidated {v : Invalidation} (hv : v.tombstone ∈ w.tombstones)
    (hn : n ≤ v.returned + 1) : Inv cfg n { w with invalidations := v :: w.invalidations } where
  __ := h
  procs i := by
    refine (h.procs i).grow le_rfl le_rfl (fun _ ht => ht) fun v' hv' => ?_
    rcases mem_cons.mp hv' with rfl | hv'
    · exact .inr hn
    · exact .inl hv'
  tombstones t ht := { h.tombstones t ht with }
  invalidations := forall_mem_cons.mpr ⟨hv, h.invalidations⟩
  served a ha := by
    obtain ⟨hstarted, hfresh⟩ := h.served a ha
    refine ⟨hstarted, forall_mem_cons.mpr ⟨fun hlt => ?_, hfresh⟩⟩
    omega

theorem Inv.elapse {d : Nat} (htime : ∀ i, (w.procs i).inTime cfg w.clockAt (w.clock + d) = true) :
    Inv cfg n { w with clock := w.clock + d } := by
  have hd : w.clock ≤ w.clock + d := by omega
  refine ⟨h.clockAt_mono, fun a ha => (h.clockAt_le a ha).trans hd, htime, fun i => ?_, fun t ht => ?_, fun p hp => ?_,
    h.guarded, h.invalidations, h.served⟩
  · exact (h.procs i).grow le_rfl hd (fun _ ht => ht) fun _ hv => .inl hv
  · have hok := h.tombstones t ht
    exact hok.grow le_rfl hd (fun _ _ => rfl) (hok.refuses.congr hd rfl rfl)
  · exact (h.entries p hp).trans (Int.add_le_add_right hd _)

end

theorem Inv.record (h : Inv cfg w.tick w) : Inv cfg (w.tick + 1) w.record := by
  have hat : ∀ a < w.tick, w.record.clockAt a = w.clockAt a := fun a ha =>
    Function.update_of_ne ha.ne _ _
  have hnow : w.record.clockAt w.tick = w.clock := Function.update_self _ _ _
  have hle : ∀ a, a < w.tick + 1 → w.record.clockAt a ≤ w.clock := fun a ha => by
    rcases Nat.lt_succ_iff_lt_or_eq.mp ha with ha | rfl
    · exact hat a ha ▸ h.clockAt_le a ha
    · exact hnow.le
  refine ⟨fun a b hab hb => ?_, hle, fun i => ?_, fun i => ?_, fun t ht => ?_, h.entries, h.guarded, h.invalidations,
    fun a ha => ⟨Nat.lt_succ_of_lt (h.served a ha).1, (h.served a ha).2⟩⟩
  · rcases Nat.lt_succ_iff_lt_or_eq.mp hb with hb' | rfl
    · rw [hat a (hab.trans_lt hb'), hat b hb']
      exact h.clockAt_mono a b hab hb'
    · exact hnow.symm ▸ hle a (Nat.lt_succ_of_le hab)
  · show (w.procs i).inTime cfg w.record.clockAt w.clock = true
    have hold := h.inTime i
    cases hproc : w.procs i with
    | validate c =>
      rw [hproc] at hold
      have hok := h.procs i
      rw [hproc] at hok
      rwa [Process.inTime_validate, hat c.started hok.1, ← Process.inTime_validate]
    | _ => rfl
  · exact (h.procs i).grow (Nat.le_succ _) le_rfl (fun _ ht => ht) fun _ hv => .inl hv
  · exact (h.tombstones t ht).grow (Nat.le_succ _) le_rfl hat (h.tombstones t ht).refuses

end IbexHarness.AuthCache
