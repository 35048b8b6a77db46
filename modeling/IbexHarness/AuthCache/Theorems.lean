import IbexHarness.AuthCache.Lemmas.Revoked

/-! Every step keeps the invariant. -/

namespace IbexHarness.AuthCache

section

open Lib List Option World

variable {procs : Nat} {cache : Lru Digest CachedEntry} {cfg : Config} {n : Nat} {w : World procs cache}
  {i : Fin procs} {c : Call}

/-! ## Stages of a call -/

variable {rs : List Removal} {e : CachedEntry} {got : Int} {k : Check} {ks : List Check} {w' : World procs cache}

theorem Inv.setStage (h : Inv cfg n w) (hi : w.procs i = .validate c) (hc : ¬ c.Returned)
    {stage : Stage} (hstage : StageOk cfg w c.started stage)
    (hguard : ∀ q ∈ cache.items w.lru, ∀ t ∈ w.tombstones, q.2.Older t → (Process.validate c).Guards q.1 q.2 t.subject →
      (Process.validate ⟨c.hash, c.started, rs, stage⟩).Guards q.1 q.2 t.subject) :
    Inv cfg n (w.setStage i c rs stage) := by
  have hok := h.procs i
  have htime := h.inTime i
  rw [hi] at hok htime
  refine h.setProc ⟨hok.1, hstage⟩ ?_ (hi ▸ hguard)
  exact Process.inTime_validate.mpr (.inr ((Process.inTime_validate.mp htime).resolve_left hc))

def Call.Plain (c : Call) : Prop :=
  c.removals = [] ∧ (∀ a, c.stage ≠ .done a) ∧ ∀ e ks, c.stage ≠ .recheck e ks

section

variable (h : Inv cfg n w) (hi : w.procs i = .validate c)
include h hi

theorem Inv.toStage (hc : c.Plain) {stage : Stage}
    (hstage : StageOk cfg w c.started stage) : Inv cfg n (w.setStage i c rs stage) := by
  refine h.setStage hi (fun ⟨_, a, ha⟩ => hc.2.1 a ha) hstage fun q _ t _ _ hq => ?_
  obtain ⟨c', heq, -, -, hguard⟩ := hq
  cases heq
  rcases hguard with hmem | ⟨ks, hks, -⟩
  · simp [hc.1] at hmem
  · exact absurd hks (hc.2.2 _ ks)

theorem Inv.stageOk : StageOk cfg w c.started c.stage := by
  have hok := h.procs i
  rw [hi] at hok
  exact hok.2

theorem Inv.started_lt : c.started < n := by
  have hok := h.procs i
  rw [hi] at hok
  exact hok.1

end

theorem Inv.remove (h : Inv cfg n w) (r : Removal) : Inv cfg n (w.remove r).1 := by
  rw [remove_eq]
  refine h.frame (fun p hp => (mem_remove hp).1) fun t ht => ?_
  exact ht.congr le_rfl (w.remove_tombs r).1 (w.remove_tombs r).2

@[simp] theorem World.procs_remove (w : World procs cache) (r : Removal) : (w.remove r).1.procs = w.procs := by
  rw [remove_eq]

theorem Inv.removeOf (h : Inv cfg n w) {r : Removal} (hi : w.procs i = .validate c)
    (hrs : c.removals = r :: rs) (more : List Removal) :
    Inv cfg n ((w.remove r).1.setProc i (.validate ⟨c.hash, c.started, more ++ rs, c.stage⟩)) := by
  have hw := h.remove r
  have hi' : (w.remove r).1.procs i = .validate c := by rw [procs_remove, hi]
  refine hw.setStage hi' (by simp [Call.Returned, hrs]) (hw.stageOk hi') fun q hq t _ _ hguards => ?_
  obtain ⟨c', heq, hhash, hstarted, hguard⟩ := hguards
  cases heq
  refine ⟨_, rfl, hhash, hstarted, hguard.imp_left fun hmem => ?_⟩
  -- an entry that is still there is not the one this step removed
  have hmem : .lru q.1 ∈ rs := by
    rw [hrs] at hmem
    exact (mem_cons.mp hmem).resolve_left fun heq => (mem_remove hq).2 heq.symm
  exact mem_append_right _ hmem

theorem LookupOk.pass {started : Nat}
    (hl : LookupOk w started e got (k :: ks)) (h : Inv cfg n w) (hgot : got ≤ w.clock)
    (hsteady : ∀ t ∈ w.tombstones, e.result.concerns t.subject = true → t.expiry ≤ got ∨ w.clock < t.expiry)
    (hpass : w.passes e k = true) : LookupOk w started e got ks := by
  intro v hv hret hold
  have ht := h.invalidations v hv
  rcases hl v hv hret hold with ⟨hlt, hmem⟩ | ⟨hle, hmem⟩
  · refine .inl ⟨hlt, (mem_cons.mp hmem).resolve_left ?_⟩
    rintro rfl
    have hlive := (hsteady _ ht hold.1).resolve_left hlt.not_ge
    exact absurd ((h.tombstones _ ht).refuses.blocks hlive hold.1) (by simp [hpass])
  · refine .inr ⟨hle, (mem_cons.mp hmem).resolve_left ?_⟩
    rintro rfl
    have hlt : w.clock < e.expiresAt := by simpa [passes] using hpass
    omega

section

variable (h : Inv cfg n w)
include h

theorem Inv.check (hi : w.procs i = .validate c) (hrs : c.removals = []) (hstage : c.stage = .check e got (k :: ks))
    (hsteady : ∀ t ∈ w.tombstones, e.result.concerns t.subject = true → t.expiry ≤ got ∨ w.clock < t.expiry) :
    Inv cfg n (w.check i c e got k ks) := by
  have hc : c.Plain := by simp [Call.Plain, hrs, hstage]
  have hok := h.stageOk hi
  rw [hstage] at hok
  unfold World.check
  cases hpass : w.passes e k with
  | false => exact h.toStage hi hc trivial
  | true =>
    have hlook := hok.2.pass h hok.1 hsteady hpass
    cases ks with
    | nil =>
      refine (h.serve (a := ⟨e.result, c.started, e.began⟩) (h.started_lt hi) fun v hv hret hsub => ?_).toStage hi hc
        trivial
      by_contra hlt
      simpa using hlook v hv hret ⟨hsub, Nat.lt_of_not_le hlt⟩
    | cons k' ks' => exact h.toStage hi hc ⟨hok.1, hlook⟩

theorem Inv.recheck (hi : w.procs i = .validate c) (hrs : c.removals = []) (hstage : c.stage = .recheck e (k :: ks)) :
    Inv cfg n (w.recheck i c e k ks) := by
  have hc : ¬ c.Returned := by simp [Call.Returned, hstage]
  have hok := h.stageOk hi
  rw [hstage] at hok
  have hguards : ∀ q ∈ cache.items w.lru, ∀ t ∈ w.tombstones, q.2.Older t →
      (Process.validate c).Guards q.1 q.2 t.subject →
      c.hash = q.1 ∧ q.2 = e ∧ t.subject.check ∈ k :: ks ∧ (w.passes e k = true → t.subject.check ∈ ks) := by
    intro q _ t ht hold hq
    obtain ⟨c', heq, hhash, hstarted, hguard⟩ := hq
    cases heq
    rcases hguard with hmem | ⟨ks', hks, hmem⟩
    · simp [hrs] at hmem
    obtain ⟨rfl, rfl⟩ : e = q.2 ∧ k :: ks = ks' := by simpa [hstage] using hks
    refine ⟨hhash, rfl, hmem, fun hpass => (mem_cons.mp hmem).resolve_left ?_⟩
    rintro rfl
    have hlive := h.lt_expiry ht hi hc (hstarted.trans hold.2.le)
    exact absurd ((h.tombstones t ht).refuses.blocks hlive hold.1) (by simp [hpass])
  unfold World.recheck
  cases hpass : w.passes e k with
  | false =>
    refine h.setStage hi hc trivial fun q hq t ht hold hg => ?_
    obtain ⟨hhash, rfl, -⟩ := hguards q hq t ht hold hg
    exact ⟨_, rfl, hhash, hok.1, .inl (by simp [evictRevoked, hhash])⟩
  | true =>
    cases ks with
    | nil =>
      refine h.setStage hi hc trivial fun q hq t ht hold hg => ?_
      simpa using (hguards q hq t ht hold hg).2.2.2 hpass
    | cons k' ks' =>
      refine h.setStage hi hc hok fun q hq t ht hold hg => ?_
      obtain ⟨hhash, rfl, -, hmem⟩ := hguards q hq t ht hold hg
      exact ⟨_, rfl, hhash, hok.1, .inr ⟨_, rfl, hmem hpass⟩⟩

/-! ## The other steps of a call -/

theorem Inv.lookupOk {k : Digest} (he : (k, e) ∈ cache.items w.lru) (started : Nat) :
    LookupOk w started e w.clock lookupChecks := by
  intro v hv _ hold
  have ht := h.invalidations v hv
  rcases lt_or_ge w.clock v.tombstone.expiry with hlive | hover
  · refine .inl ⟨hlive, ?_⟩
    cases v.tombstone.subject <;> simp [Subject.check, lookupChecks]
  · exact .inr ⟨(h.expiresAt_le he ht hold hover).trans hover, by simp [lookupChecks]⟩

theorem Inv.lruAdd (hi : w.procs i = .validate c) (hrs : c.removals = [])
    (hstage : c.stage = .add e) (rs : List Removal) :
    Inv cfg n ({ w with lru := (cache.add w.lru c.hash e).1 }.setStage i c rs (.recheck e addChecks)) := by
  have hok := h.stageOk hi
  rw [hstage] at hok
  have hset : Inv cfg n (w.setStage i c rs (.recheck e addChecks)) :=
    h.toStage hi (by simp [Call.Plain, hrs, hstage]) hok
  refine hset.insert (fun p hp => cache.mem_add hp) hok.2 fun s => ⟨i, ?_⟩
  refine ⟨_, procs_setProc _ _ _, rfl, hok.1, .inr ⟨_, rfl, ?_⟩⟩
  cases s <;> simp [Subject.check, addChecks]

theorem Inv.putToken (tokenID : Text) (hash : Digest) :
    Inv cfg n { w with tokenIdx := (w.tokenIdx.put tokenID hash w.clock).1 } := by
  refine h.frame (fun _ hp => hp) fun t ht => ?_
  unfold World.Refuses at ht ⊢
  split at ht
  · exact ⟨ht.1, TokenIndex.tomb_put ht.2 _ _⟩
  · exact ht

theorem Inv.putOrg (orgID : Uuid) (hash : Digest) :
    Inv cfg n { w with orgIdx := (w.orgIdx.put orgID hash w.clock).1 } := by
  refine h.frame (fun _ hp => hp) fun t ht => ?_
  unfold World.Refuses at ht ⊢
  split at ht
  · exact ht
  · exact ⟨ht.1, OrgIndex.tomb_put ht.2 _ _⟩

end

theorem Inv.advanceStage (h : Inv cfg (w.tick + 1) w) (hi : w.procs i = .validate c) (hrs : c.removals = [])
    (hsteady : ∀ e got ks, c.stage = .check e got ks → ∀ t ∈ w.tombstones, e.result.concerns t.subject = true →
      t.expiry ≤ got ∨ w.clock < t.expiry)
    (hs : w.advanceStage cfg i c = some w') : Inv cfg (w.tick + 1) w' := by
  have hok := h.stageOk hi
  unfold World.advanceStage at hs
  cases hstage : c.stage with
  | lruGet =>
    have hc : c.Plain := by simp [Call.Plain, hrs, hstage]
    simp only [hstage] at hs
    split at hs
    · cases hs
      exact h.toStage hi hc trivial
    · rename_i e hpeek
      cases hs
      have hget : Inv cfg (w.tick + 1) { w with lru := cache.get w.lru c.hash } :=
        h.frame (fun _ hp => cache.mem_get hp) fun _ ht => ht
      exact hget.toStage hi hc ⟨le_rfl, h.lookupOk (cache.mem_of_peek hpeek) _⟩
  | check e got ks =>
    cases ks with
    | nil => simp [hstage] at hs
    | cons k ks =>
      simp only [hstage, some.injEq] at hs
      subst hs
      exact h.check hi hrs hstage (hsteady _ _ _ hstage)
  | fetchUpstream =>
    simp only [hstage, some.injEq] at hs
    subst hs
    exact h.toStage hi (by simp [Call.Plain, hrs, hstage]) (Nat.le_of_lt_succ (h.started_lt hi))
  | bloomAdd =>
    simp only [hstage, some.injEq] at hs
    subst hs
    have hbloom : Inv cfg (w.tick + 1) { w with bloom := w.bloom.add cfg c.hash } :=
      h.frame (fun _ hp => hp) fun _ ht => ht
    exact hbloom.toStage hi (by simp [Call.Plain, hrs, hstage]) trivial
  | cacheTTL began res =>
    have hc : c.Plain := by simp [Call.Plain, hrs, hstage]
    simp only [hstage] at hs hok
    split_ifs at hs
    · cases hs
      exact h.toStage hi hc trivial
    · cases hs
      exact h.toStage hi hc ⟨hok, cacheTTL_le _ _ _⟩
  | putToken began res ttl =>
    simp only [hstage, some.injEq] at hs hok
    subst hs
    refine (h.putToken res.tokenID c.hash).toStage hi (by simp [Call.Plain, hrs, hstage]) ?_
    split_ifs
    · exact hok
    · trivial
  | putOrg began res ttl =>
    have hc : c.Plain := by simp [Call.Plain, hrs, hstage]
    simp only [hstage] at hs hok
    split_ifs at hs
    · cases hs
      exact (h.putOrg res.orgID c.hash).toStage hi hc hok
    · cases hs
      exact (h.putOrg res.orgID c.hash).toStage hi hc trivial
  | stamp began res ttl =>
    simp only [hstage, some.injEq] at hs hok
    subst hs
    exact h.toStage hi (by simp [Call.Plain, hrs, hstage]) ⟨hok.1, Int.add_le_add_left hok.2 _⟩
  | add e =>
    simp only [hstage, some.injEq] at hs
    subst hs
    exact h.lruAdd hi hrs hstage _
  | recheck e ks =>
    cases ks with
    | nil => simp [hstage] at hs
    | cons k ks =>
      simp only [hstage, some.injEq] at hs
      subst hs
      exact h.recheck hi hrs hstage
  | bloomTest | upstream | done => simp [hstage] at hs

theorem Inv.setOther (h : Inv cfg n w) (hi : ∀ c, w.procs i ≠ .validate c) {p : Process} (hp : ProcessOk cfg n w p)
    (htime : p.inTime cfg w.clockAt w.clock = true) : Inv cfg n (w.setProc i p) := by
  refine h.setProc hp htime fun q _ t _ _ hq => ?_
  obtain ⟨c, hc, -⟩ := hq
  exact absurd hc (hi c)

theorem Inv.revoke (h : Inv cfg n w) {subject : Subject} {began : Nat} {order : List Digest}
    (hi : w.procs i = .revoke subject began) (hs : w.revoke cfg i subject began order = some w') : Inv cfg n w' := by
  have hok := h.procs i
  rw [hi] at hok
  obtain ⟨hvalid, hbegan⟩ := hok
  unfold World.revoke at hs
  cases subject with
  | token tokenID =>
    have hne : tokenID ≠ [] := by simpa [Subject.valid] using hvalid
    simp only [TokenIndex.revoke, hne, if_false] at hs
    split_ifs at hs
    cases hs
    refine (h.bury (t := ⟨.token tokenID, began, w.clock + cfg.lruMaxTTL⟩) rfl hbegan ?_ ?_).setOther (by simp [hi])
      (mem_cons_self ..) rfl
    · exact ⟨hne, Tombstones.refuses_bury _ _ _ _⟩
    · intro t' ht' hle
      unfold World.Refuses at ht' ⊢
      split at ht'
      · exact ⟨ht'.1, ht'.2.bury hle⟩
      · exact ht'
  | org orgID =>
    have hne : orgID ≠ 0 := by simpa [Subject.valid] using hvalid
    simp only [OrgIndex.revoke, hne, if_false] at hs
    split_ifs at hs
    cases hs
    refine (h.bury (t := ⟨.org orgID, began, w.clock + cfg.lruMaxTTL⟩) rfl hbegan ?_ ?_).setOther (by simp [hi])
      (mem_cons_self ..) rfl
    · exact ⟨hne, Tombstones.refuses_bury _ _ _ _⟩
    · intro t' ht' hle
      unfold World.Refuses at ht' ⊢
      split at ht'
      · exact ht'
      · exact ⟨ht'.1, ht'.2.prune.bury hle⟩

theorem World.steady_check (h : w.steady (.advance i) = true) {hash : Digest} {started : Nat}
    (hi : w.procs i = .validate ⟨hash, started, [], .check e got ks⟩) :
    ∀ t ∈ w.tombstones, e.result.concerns t.subject = true → t.expiry ≤ got ∨ w.clock < t.expiry := by
  intro t ht hsub
  have hall : ∀ t ∈ w.tombstones, (e.result.concerns t.subject = false ∨ t.expiry ≤ got) ∨ w.clock < t.expiry := by
    simpa [steady, hi] using h
  simpa [hsub] using hall t ht

theorem Inv.advance (h : Inv cfg (w.tick + 1) w) (hsteady : w.steady (.advance i) = true)
    (hs : w.advance cfg i = some w') : Inv cfg (w.tick + 1) w' := by
  unfold World.advance at hs
  split at hs
  · cases hs
  · cases hs
  · rename_i hash started r rs stage hi
    cases hs
    exact h.removeOf hi rfl _
  · rename_i hash started stage hi
    refine h.advanceStage hi rfl (fun e got ks hstage => ?_) hs
    obtain rfl : stage = _ := hstage
    exact steady_check hsteady hi
  · rename_i r rs hi
    cases hs
    exact (h.remove r).setOther (by simp [hi]) trivial rfl
  · rename_i hi
    cases hs
    exact h.setOther (by simp [hi]) trivial rfl
  · rename_i t r rs hi
    cases hs
    have hw := h.remove r
    have hok := hw.procs i
    rw [procs_remove, hi] at hok
    exact hw.setOther (by simp [hi]) hok rfl
  · rename_i t hi
    cases hs
    have hok := h.procs i
    rw [hi] at hok
    exact (h.invalidated (v := ⟨t, w.tick⟩) hok le_rfl).setOther (by simp [hi]) trivial rfl

theorem Inv.act (h : Inv cfg (w.tick + 1) w) (hnow : w.clockAt w.tick = w.clock) {a : Action procs}
    (hsteady : w.steady a = true) (hs : w.act cfg a = some w') : Inv cfg (w.tick + 1) w' := by
  cases a with
  | validate i hash =>
    simp only [World.act] at hs
    split at hs
    · rename_i hi
      cases hs
      have hpos := cfg.lruMaxTTL_pos
      refine h.setOther (by simp [hi]) ⟨Nat.lt_succ_self _, trivial⟩ (Process.inTime_validate.mpr (.inr ?_))
      rw [hnow]
      omega
    · cases hs
  | invalidate i tokenHash =>
    simp only [World.act] at hs
    split at hs
    · rename_i hi
      cases hs
      exact h.setOther (by simp [hi]) trivial rfl
    · cases hs
  | invalidateBy i subject =>
    simp only [World.act] at hs
    split at hs
    · rename_i hi
      split_ifs at hs with hvalid
      · cases hs
        exact h.setOther (by simp [hi]) ⟨hvalid, Nat.lt_succ_self _⟩ rfl
      · exact some.inj hs ▸ h
    · cases hs
  | bloomTest i falsePositive =>
    simp only [World.act] at hs
    split at hs
    · rename_i hash started hi
      cases hs
      refine h.toStage hi (by simp [Call.Plain]) ?_
      dsimp only
      split_ifs <;> trivial
    · cases hs
  | upstreamReturns i result =>
    simp only [World.act] at hs
    split at hs
    · rename_i hash started began hi
      cases hs
      have hok := h.stageOk hi
      refine h.toStage hi (by simp [Call.Plain]) ?_
      rcases result with (_ | _ | _ | _) | res
      · trivial
      · trivial
      · trivial
      · trivial
      · exact hok
    · cases hs
  | revoke i order =>
    simp only [World.act] at hs
    split at hs
    · rename_i subject began hi
      exact h.revoke hi hs
    · cases hs
  | advance i => exact h.advance hsteady hs
  | elapse d =>
    simp only [World.act] at hs
    split_ifs at hs with htime
    cases hs
    exact h.elapse htime

theorem Inv.init : Inv cfg 0 (World.init : World procs cache) where
  clockAt_mono _ _ _ hb := absurd hb (Nat.not_lt_zero _)
  clockAt_le _ ha := absurd ha (Nat.not_lt_zero _)
  inTime _ := rfl
  procs _ := trivial
  tombstones _ ht := absurd ht not_mem_nil
  entries _ hp := absurd hp cache.not_mem_empty
  guarded _ hp := absurd hp cache.not_mem_empty
  invalidations _ hv := absurd hv not_mem_nil
  served _ ha := absurd ha not_mem_nil

theorem Inv.setTick (h : Inv cfg n w) (m : Nat) : Inv cfg n { w with tick := m } where
  __ := h
  procs i := (h.procs i).grow le_rfl le_rfl (fun _ ht => ht) fun _ hv => .inl hv
  tombstones t ht := { h.tombstones t ht with }

theorem inv_of_steady (hr : ((machine cfg procs cache).restrict World.steady).Reachable w) : Inv cfg w.tick w := by
  refine hr.invariant (P := fun w => Inv cfg w.tick w) (fun w hw => ?_) fun w a w' h hs => ?_
  · obtain rfl : w = .init := hw
    exact .init
  · obtain ⟨hsteady, hs⟩ := Machine.restrict_step_eq_some.mp hs
    obtain ⟨v, hv, rfl⟩ := map_eq_some_iff.mp (show (w.record.act cfg a).map _ = some w' from hs)
    have hact : Inv cfg (w.tick + 1) v := Inv.act (w := w.record) h.record (Function.update_self _ _ _) hsteady hv
    exact hact.setTick _

end

/-! A revoked token is refused as long as lookups are steady: `lookupLRU` compares with the clock up to five times. -/

open Lib

/-- An answer from the LRU to a call that started after an invalidation returned comes from an upstream
validation that did not begin before the invalidation. -/
theorem revocation_not_undone {cfg : Config} {procs : Nat} {cache : Lru Digest CachedEntry} {w : World procs cache}
    (hr : ((machine cfg procs cache).restrict World.steady).Reachable w) {a : Served} (ha : a ∈ w.served)
    {v : Invalidation} (hv : v ∈ w.invalidations) (hafter : v.returned < a.started)
    (hsub : a.result.concerns v.tombstone.subject = true) : ¬ a.began < v.tombstone.began :=
  (((inv_of_steady hr).served a ha).2 v hv hafter hsub).not_gt

/-! ## Two runs -/

def sampleConfig : Config := ⟨100, 10, by decide, by decide⟩

def sampleDigest : Digest := "d".toList

def sampleResult : Result := ⟨7, 1, 3, "u".toList, "t".toList, none, false⟩

def validateToPut (i : Fin 4) : List (Action 4) :=
  [.validate i sampleDigest, .bloomTest i false, .advance i, .advance i, .upstreamReturns i (.ok sampleResult),
    .advance i, .advance i, .advance i]

def invalidateSample (i : Fin 4) : List (Action 4) :=
  [.invalidateBy i (.token "t".toList), .revoke i [sampleDigest], .advance i, .advance i, .advance i]

def steadyActions : List (Action 4) :=
  validateToPut 0 ++ [.elapse 1] ++ invalidateSample 1 ++ List.replicate 8 (.advance 0) ++ [.elapse 100] ++
    validateToPut 2 ++ List.replicate 4 (.advance 2) ++
    [.validate 3 sampleDigest, .bloomTest 3 false] ++ List.replicate 6 (.advance 3)

def steadyWorld : World 4 (.recent 2) :=
  (((machine sampleConfig 4 (.recent 2)).restrict World.steady).run .init steadyActions).get (by decide +kernel)

theorem revocation_not_undone_sample :
    ∃ a ∈ steadyWorld.served, ∃ v ∈ steadyWorld.invalidations, v.returned < a.started ∧
      a.result.concerns v.tombstone.subject = true ∧ ¬ a.began < v.tombstone.began := by
  have hr : ((machine sampleConfig 4 (.recent 2)).restrict World.steady).Reachable steadyWorld :=
    ⟨_, rfl, steadyActions, (Option.some_get _).symm⟩
  have ha : ⟨sampleResult, 35, 26⟩ ∈ steadyWorld.served := by decide +kernel
  have hv : ⟨⟨.token "t".toList, 9, 101⟩, 13⟩ ∈ steadyWorld.invalidations := by decide +kernel
  exact ⟨_, ha, _, hv, by decide, by decide, revocation_not_undone hr ha hv (by decide) (by decide)⟩

/-- The first call caches its result late and evicts it again, but the second has it in hand by then and
compares with the clock when the tombstone ran out and the entry did not. -/
def unsteadyActions : List (Action 4) :=
  validateToPut 0 ++ [.elapse 1] ++ invalidateSample 1 ++ [.elapse 4, .advance 0, .advance 0] ++
    [.validate 2 sampleDigest, .bloomTest 2 false, .advance 2] ++ List.replicate 6 (.advance 0) ++
    [.elapse 97] ++ List.replicate 5 (.advance 2)

def unsteadyWorld : World 4 (.recent 2) :=
  ((machine sampleConfig 4 (.recent 2)).run .init unsteadyActions).get (by decide +kernel)

theorem revoked_token_served : (machine sampleConfig 4 (.recent 2)).Reachable unsteadyWorld ∧
      ∃ a ∈ unsteadyWorld.served, ∃ v ∈ unsteadyWorld.invalidations, v.returned < a.started ∧
        a.result.concerns v.tombstone.subject = true ∧ a.began < v.tombstone.began := by
  refine ⟨⟨_, rfl, unsteadyActions, (Option.some_get _).symm⟩, ?_⟩
  decide +kernel

end IbexHarness.AuthCache
