import IbexHarness.Billing.Cache

/-! Every snapshot was loaded under a generation that no invalidation has passed, or that is not current. -/

namespace IbexHarness.Billing.Cache

section

open Lib List

variable {cache : Lru Uuid CachedBudget} {w : World cache} {n : Nat}

def StageOk (n : Nat) (g : Generations Uuid) (org : Uuid) : Stage → Prop
  | .lookup | .capture _ | .done _ => True
  | .load _ stamp => g.Fresh org stamp ∧ stamp.taken < n
  | .loading _ stamp began => g.Fresh org stamp ∧ stamp.taken < began
  | .install _ stamp began _ => g.Fresh org stamp ∧ stamp.taken < began ∧ org ≠ 0

def ProcessOk (n : Nat) (g : Generations Uuid) : Process → Prop
  | .idle => True
  | .call c => c.started < n ∧ StageOk n g c.org c.stage
  | .invalidating _ began => began < n
  | .invalidated org began effective =>
    began < effective ∧ effective < n ∧ (org ≠ 0 → effective ∈ g.bumps org)

structure Inv (n : Nat) (w : World cache) : Prop where
  bumps : w.gens.Before n
  entries : ∀ p ∈ cache.items w.lru, p.1 ≠ 0 ∧ w.gens.Fresh p.1 p.2.stamp ∧ p.2.stamp.taken < p.2.loadBegan
  procs : ∀ i, ProcessOk n w.gens (w.procs i)
  served : ∀ s ∈ w.served, s.org ≠ 0 ∧ s.started < n ∧ w.gens.Covers s.org s.started s.loadBegan
  loaded : ∀ r ∈ w.loaded, r.installed < n ∧ w.gens.Covers r.org r.installed r.loadBegan
  invalidations : ∀ v ∈ w.invalidations, v.began < v.effective ∧ v.effective < v.returned ∧
    (v.org ≠ 0 → v.effective ∈ w.gens.bumps v.org)

variable {g : Generations Uuid} {m : Nat} {org : Uuid} {stage : Stage} {p : Process} {c : Call}

theorem StageOk.mono (h : StageOk n g org stage) (hn : n ≤ m) : StageOk m g org stage := by
  cases stage with
  | load _ _ => exact ⟨h.1, Nat.lt_of_lt_of_le h.2 hn⟩
  | _ => exact h

theorem ProcessOk.mono (h : ProcessOk n g p) (hn : n ≤ m) : ProcessOk m g p := by
  cases p with
  | idle => trivial
  | call c => exact ⟨Nat.lt_of_lt_of_le h.1 hn, h.2.mono hn⟩
  | invalidating org began => exact Nat.lt_of_lt_of_le h hn
  | invalidated org began effective => exact ⟨h.1, Nat.lt_of_lt_of_le h.2.1 hn, h.2.2⟩

section

variable (h : Inv n w)
include h

theorem Inv.mono (hn : n ≤ m) : Inv m w where
  __ := h
  bumps k b hb := Nat.lt_of_lt_of_le (h.bumps k b hb) hn
  procs i := (h.procs i).mono hn
  served s hs := ⟨(h.served s hs).1, Nat.lt_of_lt_of_le (h.served s hs).2.1 hn, (h.served s hs).2.2⟩
  loaded r hr := ⟨Nat.lt_of_lt_of_le (h.loaded r hr).1 hn, (h.loaded r hr).2⟩

theorem Inv.setProc (hp : ProcessOk n w.gens p) (i : Nat) : Inv n (w.setProc i p) where
  __ := h
  procs j := by
    by_cases hj : j = i
    · subst hj
      simpa [World.setProc] using hp
    · simpa [World.setProc, hj] using h.procs j

theorem Inv.shrink {lru : cache.State} (hlru : ∀ p ∈ cache.items lru, p ∈ cache.items w.lru) :
    Inv n { w with lru := lru } :=
  { h with entries := fun p hp => h.entries p (hlru p hp) }

theorem Inv.setStage (hc : c.started < n)
    (hstage : StageOk n w.gens c.org stage) (i : Nat) : Inv n (w.setStage i c stage) :=
  h.setProc (p := .call { c with stage := stage }) ⟨hc, hstage⟩ i

theorem Inv.lookup (hc : c.started < n) (i : Nat) : Inv n (w.lookup i c) := by
  unfold World.lookup
  split
  · exact h.setStage hc (by trivial) i
  · rename_i entry hpeek
    obtain ⟨horg, hfresh, htaken⟩ := h.entries _ (cache.mem_of_peek hpeek)
    have hused := h.shrink fun p (hp : p ∈ cache.items (cache.get w.lru c.org)) => cache.mem_get hp
    have hremoved := hused.shrink fun p (hp : p ∈ cache.items (cache.remove (cache.get w.lru c.org) c.org)) =>
      (cache.mem_remove.mp hp).1
    simp only
    split_ifs with hgen hexpired
    · exact hremoved.setStage hc (by trivial) i
    · exact hremoved.setStage hc (by trivial) i
    · -- the entry's generation is current, so every invalidation came before it was read
      have hcovers : w.gens.Covers c.org c.started entry.loadBegan := hfresh.covers (of_not_not hgen) htaken
      have hserved : Inv n { w with
          lru := cache.get w.lru c.org
          served := ⟨c.org, c.started, entry.loadBegan⟩ :: w.served } :=
        { hused with served := forall_mem_cons.mpr ⟨⟨horg, hc, hcovers⟩, h.served⟩ }
      exact hserved.setStage hc (by trivial) i

theorem Inv.install (hn : w.tick < n) {attempt : Nat} {stamp : Stamp} {began : Nat}
    {snap : BudgetSnapshot} (hc : c.started < n) (hstage : StageOk n w.gens c.org (.install attempt stamp began snap))
    (cacheTTL i : Nat) : Inv n (w.install cacheTTL i c attempt stamp began snap) := by
  obtain ⟨hfresh, htaken, horg⟩ := hstage
  unfold World.install
  split_ifs with hgen hattempt
  · exact h.setStage hc (by trivial) i
  · exact h.setStage hc (by trivial) i
  · have hcovers : w.gens.Covers c.org w.tick began := hfresh.covers (of_not_not hgen).symm htaken
    have hadded : Inv n { w with
        lru := (cache.add w.lru c.org ⟨snap, w.clock + cacheTTL, stamp, began⟩).1
        loaded := ⟨c.org, began, w.tick⟩ :: w.loaded } := by
      refine { h with entries := fun p hp => ?_, loaded := forall_mem_cons.mpr ⟨⟨hn, hcovers⟩, h.loaded⟩ }
      rcases cache.mem_add hp with rfl | hp
      · exact ⟨horg, hfresh, htaken⟩
      · exact h.entries p hp
    exact hadded.setStage hc (by trivial) i

end

theorem StageOk.bump (h : StageOk n g org stage) (j : Uuid) (now : Nat) : StageOk n (g.bump j now) org stage := by
  cases stage with
  | lookup | capture _ | done _ => trivial
  | load | loading | install => exact ⟨h.1.bump, h.2⟩

theorem ProcessOk.bump (h : ProcessOk n g p) (j : Uuid) (now : Nat) : ProcessOk n (g.bump j now) p := by
  cases p with
  | idle => trivial
  | call c => exact ⟨h.1, h.2.bump j now⟩
  | invalidating org began => exact h
  | invalidated org began effective =>
    exact ⟨h.1, h.2.1, fun horg => Generations.mem_bumps_bump.mpr (.inr (h.2.2 horg))⟩

theorem Inv.bump (h : Inv n w) (j : Uuid) : Inv (n + 1) { w with gens := w.gens.bump j n } where
  bumps := h.bumps.bump
  entries p hp := ⟨(h.entries p hp).1, (h.entries p hp).2.1.bump, (h.entries p hp).2.2⟩
  procs i := ((h.procs i).bump j n).mono (Nat.le_succ n)
  served s hs := by
    obtain ⟨horg, hstarted, hcovers⟩ := h.served s hs
    exact ⟨horg, Nat.lt_succ_of_lt hstarted, hcovers.bump hstarted⟩
  loaded r hr := ⟨Nat.lt_succ_of_lt (h.loaded r hr).1, (h.loaded r hr).2.bump (h.loaded r hr).1⟩
  invalidations v hv :=
    ⟨(h.invalidations v hv).1, (h.invalidations v hv).2.1,
      fun horg => Generations.mem_bumps_bump.mpr (.inr ((h.invalidations v hv).2.2 horg))⟩

theorem Inv.invalidate (h : Inv w.tick w) {began : Nat} (hbegan : began < w.tick) (i : Nat) :
    Inv (w.tick + 1) (w.invalidate i org began) := by
  unfold World.invalidate
  simp only
  split_ifs with horg
  · exact (h.mono (Nat.le_succ _)).setProc (p := .invalidated org began w.tick)
      ⟨hbegan, Nat.lt_succ_self _, fun hne => absurd horg hne⟩ i
  · have hbump := h.bump org
    have hremoved := hbump.shrink fun p (hp : p ∈ cache.items (cache.remove w.lru org)) => (cache.mem_remove.mp hp).1
    exact hremoved.setProc (p := .invalidated org began w.tick)
      ⟨hbegan, Nat.lt_succ_self _, fun _ => Generations.mem_bumps_bump.mpr (.inl ⟨rfl, rfl⟩)⟩ i

theorem Inv.act (h : Inv w.tick w) {cacheTTL : Nat} {a : Action} {w' : World cache}
    (hact : w.act cacheTTL a = some w') : Inv (w.tick + 1) w' := by
  have hnext := h.mono (Nat.le_succ w.tick)
  have hnow := Nat.lt_succ_self w.tick
  cases a with
  | begin i request org =>
    simp only [World.act] at hact
    split at hact
    · cases hact
      refine hnext.setProc (p := .call ⟨request, org, w.tick, _⟩) ⟨hnow, ?_⟩ i
      split_ifs <;> trivial
    · simp at hact
  | lookup i =>
    simp only [World.act] at hact
    split at hact
    · rename_i request org started hproc
      cases hact
      have hc := hnext.procs i
      rw [hproc] at hc
      exact hnext.lookup hc.1 i
    · simp at hact
  | capture i =>
    simp only [World.act] at hact
    split at hact
    · rename_i request org started attempt hproc
      cases hact
      have hc := hnext.procs i
      rw [hproc] at hc
      exact hnext.setProc (p := .call ⟨request, org, started, .load attempt ⟨w.gens.gen org, w.tick⟩⟩)
        ⟨hc.1, Generations.fresh_of_read (h.bumps org), hnow⟩ i
    · simp at hact
  | load i =>
    simp only [World.act] at hact
    split at hact
    · rename_i request org started attempt stamp hproc
      cases hact
      have hc := h.procs i
      rw [hproc] at hc
      exact hnext.setProc (p := .call ⟨request, org, started, .loading attempt stamp w.tick⟩)
        ⟨Nat.lt_succ_of_lt hc.1, hc.2⟩ i
    · simp at hact
  | loadReturns i result =>
    simp only [World.act] at hact
    split at hact
    · rename_i request org started attempt stamp began hproc
      have hc := hnext.procs i
      rw [hproc] at hc
      split at hact
      · rename_i snap hsnap
        cases hact
        have horg : org ≠ 0 := by
          rintro rfl
          simp at hsnap
        exact hnext.setProc (p := .call ⟨request, org, started, .install attempt stamp began snap⟩)
          ⟨hc.1, hc.2.1, hc.2.2, horg⟩ i
      · cases hact
        exact hnext.setProc (p := .call ⟨request, org, started, .done .unavailable⟩) ⟨hc.1, trivial⟩ i
    · simp at hact
  | install i =>
    simp only [World.act] at hact
    split at hact
    · rename_i request org started attempt stamp began snap hproc
      cases hact
      have hc := hnext.procs i
      rw [hproc] at hc
      exact hnext.install hnow (c := ⟨request, org, started, .install attempt stamp began snap⟩) hc.1 hc.2 cacheTTL i
    · simp at hact
  | beginInvalidate i org =>
    simp only [World.act] at hact
    split at hact
    · cases hact
      exact hnext.setProc (p := .invalidating org w.tick) hnow i
    · simp at hact
  | invalidate i =>
    simp only [World.act] at hact
    split at hact
    · rename_i org began hproc
      cases hact
      have hbegan := h.procs i
      rw [hproc] at hbegan
      exact h.invalidate hbegan i
    · simp at hact
  | invalidateReturns i =>
    simp only [World.act] at hact
    split at hact
    · rename_i org began effective hproc
      cases hact
      have hp := h.procs i
      rw [hproc] at hp
      have hlog : Inv (w.tick + 1)
          { w with invalidations := ⟨org, began, effective, w.tick⟩ :: w.invalidations } :=
        { hnext with invalidations := forall_mem_cons.mpr ⟨hp, hnext.invalidations⟩ }
      exact hlog.setProc (p := .idle) trivial i
    · simp at hact
  | elapse d =>
    cases hact
    exact { hnext with }

theorem inv_reachable {cacheTTL : Nat} (h : (cacheMachine cache cacheTTL).Reachable w) : Inv w.tick w := by
  refine h.invariant (P := fun w => Inv w.tick w) ?_ ?_
  · rintro w rfl
    have hnone {α : Type} {x : α} {P : Prop} (h : x ∈ ([] : List α)) : P := absurd h not_mem_nil
    exact ⟨fun _ _ => hnone, fun _ hp => absurd hp cache.not_mem_empty, fun _ => trivial, fun _ => hnone,
      fun _ => hnone, fun _ => hnone⟩
  · intro w a w' hw hstep
    obtain ⟨v, hv, rfl⟩ := Option.map_eq_some_iff.mp hstep
    have hinv := hw.act hv
    exact { hinv with }

end

open Lib Option World

/-- Freshness: what is served from the cache to a call that started after an `Invalidate` returned was loaded
after that `Invalidate`. A load that an invalidation overtakes is never answered: the call loads again or
fails. -/
theorem budget_cache_fresh {cache : Lru Uuid CachedBudget} {cacheTTL : Nat} {w : World cache}
    (hw : (cacheMachine cache cacheTTL).Reachable w) :
    (∀ s ∈ w.served, ∀ v ∈ w.invalidations, v.org = s.org → v.returned < s.started → v.effective < s.loadBegan) ∧
    (∀ r ∈ w.loaded, ∀ b ∈ w.gens.bumps r.org, ¬ (r.loadBegan < b ∧ b < r.installed)) ∧
    ∀ (i : Nat) (c : Call) (attempt : Nat) (stamp : Stamp) (began : Nat) (snap : BudgetSnapshot) (w' : World cache),
      w.procs i = .call c → c.stage = .install attempt stamp began snap →
      (∃ b ∈ w.gens.bumps c.org, began < b) → w.step cacheTTL (.install i) = some w' →
        w'.procs i = .call { c with stage := .capture (attempt + 1) } ∨
          w'.procs i = .call { c with stage := .done .unavailable } := by
  have hinv := inv_reachable hw
  refine ⟨fun s hs v hv horg hlt => ?_, fun r hr b hb h => ?_, ?_⟩
  · obtain ⟨hnil, -, hserved⟩ := hinv.served s hs
    obtain ⟨-, heffective, hbump⟩ := hinv.invalidations v hv
    exact hserved v.effective (horg ▸ hbump (horg ▸ hnil)) (Nat.lt_trans heffective hlt)
  · exact Nat.lt_asymm h.1 ((hinv.loaded r hr).2 b hb h.2)
  · rintro i ⟨request, org, started, stage⟩ attempt stamp began snap w' hproc rfl ⟨b, hb, hlt⟩ hstep
    have hc := hinv.procs i
    rw [hproc] at hc
    obtain ⟨hfresh, htaken, -⟩ := hc.2
    have hgen : w.gens.gen org ≠ stamp.gen := fun heq =>
      Nat.lt_asymm hlt (Nat.lt_trans (hfresh.2 heq.symm b hb) htaken)
    simp only [step, act, hproc, map_some, some.injEq] at hstep
    subst hstep
    by_cases hattempt : attempt + 1 < maxBudgetLoadAttempts
    · exact .inl (by simp [install, hgen, hattempt, setStage, setProc])
    · exact .inr (by simp [install, hgen, hattempt, setStage, setProc])

def sampleSnapshot (spent : Int) : BudgetSnapshot := ⟨100, spent, true, ⟨[], []⟩⟩

/-- A load that an invalidation overtakes, its second attempt, and a `Check` that hits. -/
def sampleActions : List Action :=
  [.begin 0 .snapshot 1, .lookup 0, .capture 0, .load 0, .beginInvalidate 1 1, .invalidate 1, .invalidateReturns 1,
    .loadReturns 0 (some (sampleSnapshot 0)), .install 0, .capture 0, .load 0,
    .loadReturns 0 (some (sampleSnapshot 90)), .install 0, .begin 2 .check 1, .lookup 2]

def sampleWorld : World (.recent 1) := ((cacheMachine (.recent 1) 60).run .init sampleActions).get (by decide)

theorem budget_cache_fresh_sample : sampleWorld.served.length = 1 ∧ sampleWorld.invalidations.length = 1 ∧
    ∀ s ∈ sampleWorld.served, ∀ v ∈ sampleWorld.invalidations, v.org = s.org → v.returned < s.started →
      v.effective < s.loadBegan :=
  ⟨by decide, by decide, (@budget_cache_fresh (.recent 1) 60 _ ⟨_, rfl, sampleActions, (some_get _).symm⟩).1⟩

end IbexHarness.Billing.Cache
