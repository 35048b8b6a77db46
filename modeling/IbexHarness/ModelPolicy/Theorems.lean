import IbexHarness.ModelPolicy.Cache

/-! The generation under which a snapshot was loaded stays fresh as long as callbacks forget only generations that
nothing refers to. -/

namespace IbexHarness.ModelPolicy

section

open Lib Option World

variable {procs : Nat} {cache : Lru Uuid CachedPolicies} {w : World procs cache} {n : Nat}

def StageOk (n : Nat) (g : Generations Uuid) (org : Uuid) : Stage → Prop
  | .load _ stamp => g.Fresh org stamp ∧ stamp.taken < n
  | .loading _ stamp began | .install _ stamp began _ => g.Fresh org stamp ∧ stamp.taken < began
  | .add _ entry => g.Fresh org entry.stamp ∧ entry.stamp.taken < entry.loadBegan
  | .lookup | .dropStale | .capture _ | .recheck _ _ | .peek _ _ | .remove _ | .done _ | .failed => True

def ProcessOk (n : Nat) (g : Generations Uuid) : Process → Prop
  | .idle => True
  | .call c => c.started < n ∧ StageOk n g c.org c.stage
  | .invalidating _ began => began < n
  | .bumped org began effective | .removed org began effective =>
    began < effective ∧ effective < n ∧ effective ∈ g.bumps org
  | .evicting _ _ next => ProcessOk n g next

structure Inv (n : Nat) (w : World procs cache) : Prop where
  bumps : w.gens.Before n
  entries : ∀ p ∈ cache.items w.lru, w.gens.Fresh p.1 p.2.stamp ∧ p.2.stamp.taken < p.2.loadBegan
  procs : ∀ i, ProcessOk n w.gens (w.procs i)
  served : ∀ s ∈ w.served, s.started < n ∧ w.gens.Covers s.org s.started s.loadBegan
  invalidations : ∀ v ∈ w.invalidations,
    ∃ effective ∈ w.gens.bumps v.org, v.began < effective ∧ effective < v.returned

variable {g : Generations Uuid} {m cacheTTL : Nat} {org key : Uuid} {stage : Stage} {p next : Process} {c : Call}

theorem StageOk.mono (h : StageOk n g org stage) (hn : n ≤ m) : StageOk m g org stage := by
  cases stage with
  | load _ _ => exact ⟨h.1, Nat.lt_of_lt_of_le h.2 hn⟩
  | _ => exact h

theorem ProcessOk.mono (h : ProcessOk n g p) (hn : n ≤ m) : ProcessOk m g p := by
  induction p with
  | idle => trivial
  | call c => exact ⟨Nat.lt_of_lt_of_le h.1 hn, h.2.mono hn⟩
  | invalidating org began => exact Nat.lt_of_lt_of_le h hn
  | bumped | removed => exact ⟨h.1, Nat.lt_of_lt_of_le h.2.1 hn, h.2.2⟩
  | evicting key entry next ih => exact ih h

theorem StageOk.bump (h : StageOk n g org stage) (j : Uuid) (now : Nat) : StageOk n (g.bump j now) org stage := by
  cases stage with
  | load | loading | install | add => exact ⟨h.1.bump, h.2⟩
  | _ => trivial

theorem ProcessOk.bump (h : ProcessOk n g p) (j : Uuid) (now : Nat) : ProcessOk n (g.bump j now) p := by
  induction p with
  | idle => trivial
  | call c => exact ⟨h.1, h.2.bump j now⟩
  | invalidating org began => exact h
  | bumped | removed => exact ⟨h.1, h.2.1, Generations.mem_bumps_bump.mpr (.inr h.2.2)⟩
  | evicting key entry next ih => exact ih h

theorem ProcessOk.drop (h : ProcessOk n g p) (hp : p.holds key = false) : ProcessOk n (g.drop key) p := by
  induction p with
  | idle => trivial
  | call c =>
    obtain ⟨org, started, stage⟩ := c
    refine ⟨h.1, ?_⟩
    have hstage := h.2
    cases stage with
    | load | loading | install | add => exact ⟨hstage.1.drop_of_ne (by simpa [Process.holds] using hp), hstage.2⟩
    | _ => trivial
  | invalidating | bumped | removed => exact h
  | evicting _ entry next ih => exact ih h hp

/-! ## Changes of the world -/

section

variable (h : Inv n w)
include h

theorem Inv.mono (hn : n ≤ m) : Inv m w where
  __ := h
  bumps k b hb := Nat.lt_of_lt_of_le (h.bumps k b hb) hn
  procs i := (h.procs i).mono hn
  served s hs := ⟨Nat.lt_of_lt_of_le (h.served s hs).1 hn, (h.served s hs).2⟩

theorem Inv.setProc (hp : ProcessOk n w.gens p) (i : Fin procs) : Inv n (w.setProc i p) where
  __ := h
  procs j := by
    by_cases hj : j = i
    · subst hj
      simpa [World.setProc] using hp
    · simpa [World.setProc, hj] using h.procs j

theorem Inv.setStage (hc : c.started < n)
    (hstage : StageOk n w.gens c.org stage) (i : Fin procs) : Inv n (w.setStage i c stage) :=
  h.setProc (p := .call { c with stage := stage }) ⟨hc, hstage⟩ i

theorem Inv.shrink {lru : cache.State}
    (hlru : ∀ p ∈ cache.items lru, p ∈ cache.items w.lru) : Inv n { w with lru := lru } :=
  { h with entries := fun p hp => h.entries p (hlru p hp) }

theorem Inv.addServed {s : Served} (hstarted : s.started < n)
    (hs : w.gens.Covers s.org s.started s.loadBegan) : Inv n { w with served := s :: w.served } :=
  { h with served := List.forall_mem_cons.mpr ⟨⟨hstarted, hs⟩, h.served⟩ }

theorem Inv.lruRemove (hnext : ProcessOk n w.gens next) (i : Fin procs) (key : Uuid) :
    Inv n (w.lruRemove i key next) := by
  have hshrink := h.shrink fun p (hp : p ∈ cache.items (cache.remove w.lru key)) => (cache.mem_remove.mp hp).1
  refine hshrink.setProc ?_ i
  cases cache.peek w.lru key with
  | none | some => exact hnext

theorem Inv.lruAdd {entry : CachedPolicies}
    (hfresh : w.gens.Fresh key entry.stamp) (htaken : entry.stamp.taken < entry.loadBegan)
    (hnext : ProcessOk n w.gens next) (i : Fin procs) : Inv n (w.lruAdd i key entry next) := by
  have hadd : Inv n { w with lru := (cache.add w.lru key entry).1 } := by
    refine { h with entries := fun p hp => ?_ }
    rcases cache.mem_add hp with rfl | hp
    · exact ⟨hfresh, htaken⟩
    · exact h.entries p hp
  refine hadd.setProc ?_ i
  cases (cache.add w.lru key entry).2 with
  | none | some => exact hnext

theorem Inv.lookup (hc : c.started < n) (i : Fin procs) : Inv n (w.lookup i c) := by
  unfold World.lookup
  split
  · exact h.setStage hc (by trivial) i
  · rename_i entry hpeek
    obtain ⟨hfresh, htaken⟩ := h.entries _ (cache.mem_of_peek hpeek)
    have hused := h.shrink fun p (hp : p ∈ cache.items (cache.get w.lru c.org)) => cache.mem_get hp
    simp only
    split_ifs with hgen hexpired
    · exact hused.setStage hc (by trivial) i
    · exact hused.setStage hc (by trivial) i
    · -- the entry's generation is current, so every invalidation came before it was read
      have hcovers : w.gens.Covers c.org c.started entry.loadBegan := hfresh.covers (of_not_not hgen) htaken
      exact (hused.addServed (s := ⟨c.org, c.started, entry.loadBegan⟩) hc hcovers).setStage hc (by trivial) i

theorem Inv.bump (j : Uuid) : Inv (n + 1) { w with gens := w.gens.bump j n } where
  bumps := h.bumps.bump
  entries p hp := ⟨(h.entries p hp).1.bump, (h.entries p hp).2⟩
  procs i := ((h.procs i).bump j n).mono (Nat.le_succ n)
  served s hs := ⟨Nat.lt_succ_of_lt (h.served s hs).1, (h.served s hs).2.bump (h.served s hs).1⟩
  invalidations v hv := by
    obtain ⟨effective, hmem, hlt⟩ := h.invalidations v hv
    exact ⟨effective, Generations.mem_bumps_bump.mpr (.inr hmem), hlt⟩

theorem Inv.drop (hprocs : ∀ j, (w.procs j).holds key = false)
    (hlru : cache.peek w.lru key = none) : Inv n { w with gens := w.gens.drop key } :=
  ⟨h.bumps, fun p hp => ⟨(h.entries p hp).1.drop_of_ne (cache.ne_of_peek_eq_none hlru hp), (h.entries p hp).2⟩,
    fun i => (h.procs i).drop (hprocs i), h.served, h.invalidations⟩

end

theorem stageOk_nextAttempt (attempt : Nat) : StageOk n g org (nextAttempt attempt) := by
  unfold nextAttempt
  split_ifs <;> trivial

theorem Inv.advanceCall (h : Inv w.tick w) {i : Fin procs} {w' : World procs cache}
    (hc : ProcessOk w.tick w.gens (.call c)) (hstep : w.advanceCall cacheTTL i c = some w') :
    Inv (w.tick + 1) w' := by
  have hnext := h.mono (Nat.le_succ w.tick)
  obtain ⟨org, started, stage⟩ := c
  have hstage := hc.2
  have hcall {next : Stage} (hs : StageOk (w.tick + 1) w.gens org next) :
      ProcessOk (w.tick + 1) w.gens (.call ⟨org, started, next⟩) := ⟨Nat.lt_succ_of_lt hc.1, hs⟩
  have hset {next : Stage} (hs : StageOk (w.tick + 1) w.gens org next) :
      Inv (w.tick + 1) (w.setProc i (.call ⟨org, started, next⟩)) := hnext.setProc (hcall hs) i
  cases stage with
  | lookup => exact some.inj hstep ▸ hnext.lookup (Nat.lt_succ_of_lt hc.1) i
  | dropStale => exact some.inj hstep ▸ hnext.lruRemove (hcall (by trivial)) i org
  | capture attempt =>
    exact some.inj hstep ▸ hset ⟨Generations.fresh_of_read (h.bumps org), Nat.lt_succ_self _⟩
  | load attempt stamp => exact some.inj hstep ▸ hset (show StageOk _ _ _ (.loading attempt stamp w.tick) from hstage)
  | loading | done | failed => simp [advanceCall] at hstep
  | install attempt stamp began snap =>
    refine some.inj hstep ▸ ?_
    unfold install
    split_ifs
    · exact hset (stageOk_nextAttempt attempt)
    · exact hset (show StageOk _ _ _ (.add attempt _) from hstage)
  | add attempt entry => exact some.inj hstep ▸ hnext.lruAdd hstage.1 hstage.2 (hcall (by trivial)) i
  | recheck attempt entry =>
    simp only [advanceCall] at hstep
    split_ifs at hstep <;> exact some.inj hstep ▸ hset (by trivial)
  | peek attempt entry =>
    simp only [advanceCall] at hstep
    split_ifs at hstep
    · exact some.inj hstep ▸ hset (by trivial)
    · exact some.inj hstep ▸ hset (stageOk_nextAttempt attempt)
  | remove attempt => exact some.inj hstep ▸ hnext.lruRemove (hcall (stageOk_nextAttempt attempt)) i org

theorem Inv.onLRUEvict (h : Inv n w) {entry : CachedPolicies} {i : Fin procs}
    (hproc : w.procs i = .evicting key entry next) (hquiet : w.quiet (.advance i) = true) :
    Inv n (w.onLRUEvict i key entry next) := by
  have hnext : ProcessOk n w.gens next := by
    have hp := h.procs i
    rwa [hproc] at hp
  unfold World.onLRUEvict
  split_ifs with hgen
  · by_cases hzero : w.gens.gen key = 0
    · rw [Generations.drop_eq_self hzero]
      exact h.setProc hnext i
    · simp only [quiet, hproc, hgen, ne_eq, not_true_eq_false, decide_false, Bool.false_or, Bool.or_eq_true,
        decide_eq_true_eq, Bool.and_eq_true, isNone_iff_eq_none] at hquiet
      obtain ⟨hprocs, hlru⟩ := hquiet.resolve_left fun heq => hzero (hgen.trans heq)
      have hholds : next.holds key = false := by
        have hp := hprocs i
        rwa [hproc] at hp
      exact (h.drop hprocs hlru).setProc (hnext.drop hholds) i
  · exact h.setProc hnext i

theorem Inv.act (h : Inv w.tick w) {validPattern : Text → Bool} {a : Action procs}
    {w' : World procs cache} (hquiet : w.quiet a = true) (hact : w.act validPattern cacheTTL a = some w') :
    Inv (w.tick + 1) w' := by
  have hnext := h.mono (Nat.le_succ w.tick)
  have hnow := Nat.lt_succ_self w.tick
  cases a with
  | begin i org =>
    simp only [World.act] at hact
    split at hact
    · exact some.inj hact ▸ hnext.setProc (p := .call ⟨org, w.tick, .lookup⟩) ⟨hnow, trivial⟩ i
    · simp at hact
  | cachedEpoch org =>
    exact some.inj hact ▸ hnext.shrink fun p (hp : p ∈ cache.items (cache.get w.lru org)) => cache.mem_get hp
  | beginInvalidate i org =>
    simp only [World.act] at hact
    have horg : org ≠ 0 := by simpa [quiet] using hquiet
    split at hact
    · rw [if_neg horg] at hact
      exact some.inj hact ▸ hnext.setProc (p := .invalidating org w.tick) hnow i
    · simp at hact
  | loadReturns i result =>
    simp only [World.act] at hact
    split at hact
    · rename_i org started attempt stamp began hproc
      have hc := hnext.procs i
      rw [hproc] at hc
      split at hact
      · rename_i snap _
        exact some.inj hact ▸
          hnext.setProc (p := .call ⟨org, started, .install attempt stamp began snap⟩) ⟨hc.1, hc.2⟩ i
      · exact some.inj hact ▸ hnext.setProc (p := .call ⟨org, started, .failed⟩) ⟨hc.1, trivial⟩ i
    · simp at hact
  | advance i =>
    have hp := h.procs i
    simp only [World.act] at hact
    split at hact
    · simp at hact
    · rename_i c hproc
      exact h.advanceCall (hproc ▸ hp) hact
    · rename_i org began hproc
      rw [hproc] at hp
      exact some.inj hact ▸ (h.bump org).setProc (p := .bumped org began w.tick)
        ⟨hp, hnow, Generations.mem_bumps_bump.mpr (.inl ⟨rfl, rfl⟩)⟩ i
    · rename_i org began effective hproc
      have hp := hnext.procs i
      rw [hproc] at hp
      have hp' : ProcessOk (w.tick + 1) w.gens (.removed org began effective) := hp
      exact some.inj hact ▸ hnext.lruRemove hp' i org
    · rename_i org began effective hproc
      rw [hproc] at hp
      have hlog : Inv (w.tick + 1) { w with invalidations := ⟨org, began, w.tick⟩ :: w.invalidations } :=
        { hnext with
          invalidations := List.forall_mem_cons.mpr ⟨⟨effective, hp.2.2, hp.1, hp.2.1⟩, hnext.invalidations⟩ }
      exact some.inj hact ▸ hlog.setProc (p := .idle) trivial i
    · rename_i key entry next hproc
      exact some.inj hact ▸ hnext.onLRUEvict hproc hquiet
  | elapse d =>
    exact some.inj hact ▸ { hnext with }

theorem inv_reachable {validPattern : Text → Bool}
    (h : ((machine validPattern cacheTTL procs cache).restrict World.quiet).Reachable w) : Inv w.tick w := by
  refine h.invariant (P := fun w => Inv w.tick w) ?_ ?_
  · rintro w rfl
    have hnone {α : Type} {x : α} {P : Prop} (h : x ∈ ([] : List α)) : P := absurd h List.not_mem_nil
    exact ⟨fun _ _ => hnone, fun _ hp => absurd hp cache.not_mem_empty, fun _ => trivial, fun _ => hnone,
      fun _ => hnone⟩
  · intro w a w' hw hstep
    obtain ⟨hquiet, hstep⟩ := Machine.restrict_step_eq_some.mp hstep
    obtain ⟨v, hv, rfl⟩ := map_eq_some_iff.mp hstep
    have hinv := hw.act hquiet hv
    exact { hinv with }

end

open Lib

/-- Freshness while evictions are quiet: what is served from the cache to a call that started after an
`Invalidate` returned was loaded after that `Invalidate` began. -/
theorem policy_cache_fresh {validPattern : Text → Bool} {cacheTTL procs : Nat}
    {cache : Lru Uuid CachedPolicies} {w : World procs cache}
    (hw : ((machine validPattern cacheTTL procs cache).restrict World.quiet).Reachable w) :
    ∀ s ∈ w.served, ∀ v ∈ w.invalidations, v.org = s.org → v.returned < s.started → v.began < s.loadBegan := by
  intro s hs v hv horg hlt
  obtain ⟨effective, hbump, hbegan, hreturned⟩ := (inv_reachable hw).invalidations v hv
  have hcovers := ((inv_reachable hw).served s hs).2
  exact Nat.lt_trans hbegan (hcovers effective (horg ▸ hbump) (Nat.lt_trans hreturned hlt))

local instance procs_ne_zero : NeZero 4 := ⟨by decide⟩

def samplePolicies (epoch : Nat) : OrgPolicies := ⟨epoch, []⟩

def sampleLoad {procs : Nat} (i : Fin procs) (org : Uuid) : List (Action procs) :=
  [.begin i org, .advance i, .advance i, .advance i]

/-- The loader returns, and the snapshot is installed in an empty cache. -/
def sampleInstall {procs : Nat} (i : Fin procs) (epoch : Nat) : List (Action procs) :=
  [.loadReturns i (some (samplePolicies epoch)), .advance i, .advance i, .advance i]

def sampleInvalidate {procs : Nat} (i : Fin procs) (org : Uuid) : List (Action procs) :=
  [.beginInvalidate i org, .advance i, .advance i]

def sampleActions : List (Action 4) :=
  sampleLoad 0 1 ++ sampleInstall 0 1 ++ sampleInvalidate 1 1 ++ [.advance 1, .advance 1] ++ sampleLoad 2 1 ++
    sampleInstall 2 2 ++ [.begin 3 1, .advance 3]

def sampleWorld : World 4 (.recent 1) :=
  (((machine (fun _ => true) 60 4 (.recent 1)).restrict World.quiet).run .init sampleActions).get (by decide)

theorem policy_cache_fresh_sample : sampleWorld.served = [⟨1, 21, 16⟩] ∧ sampleWorld.invalidations = [⟨1, 8, 12⟩] ∧
    ∀ s ∈ sampleWorld.served, ∀ v ∈ sampleWorld.invalidations, v.org = s.org → v.returned < s.started →
      v.began < s.loadBegan :=
  ⟨by decide, by decide, policy_cache_fresh ⟨_, rfl, sampleActions, (Option.some_get _).symm⟩⟩

/-- A slow load of an organization; an invalidation and a new load of it; a load of another organization that
pushes it out, with the generation; then the slow load returns. -/
def staleActions : List (Action 5) :=
  sampleLoad 0 1 ++ sampleInvalidate 1 1 ++ [.advance 1] ++ sampleLoad 2 1 ++ sampleInstall 2 2 ++ sampleLoad 3 2 ++
    sampleInstall 3 1 ++ [.advance 3] ++ sampleInstall 0 1 ++ [.advance 0] ++ [.begin 4 1, .advance 4]

def staleWorld : World 5 (.recent 1) :=
  ((machine (fun _ => true) 60 5 (.recent 1)).run .init staleActions).get (by decide)

theorem policy_cache_serves_stale : (machine (fun _ => true) 60 5 (.recent 1)).Reachable staleWorld ∧
    ∃ s ∈ staleWorld.served, ∃ v ∈ staleWorld.invalidations, v.org = s.org ∧ v.org ≠ 0 ∧
      v.returned < s.started ∧ s.loadBegan < v.began :=
  ⟨⟨_, rfl, staleActions, (Option.some_get _).symm⟩, by decide⟩

end IbexHarness.ModelPolicy
