import IbexHarness.Directive.Cached

/-! A populate job carries no generation. -/

namespace IbexHarness.Directive

open Lib List Option Function

variable {κ α : Type} {c : PoolConfig} {w w' : World κ α}

def InvalidateStage.executed : InvalidateStage → Bool
  | .del => false
  | .deleted | .returned _ => true

/-- No job is written after the deletion of an invalidation that began after the job's load. -/
def populatesInTime [DecidableEq κ] (w : World κ α) : Action κ α → Bool
  | .populate p worker => ((w.pools p).busy[worker]?).all fun job =>
    w.invalidations.all fun I => I.key ≠ job.key || !I.stage.executed || I.began ≤ job.loaded.began
  | _ => true

def NotOlder (w : World κ α) (R : Resolve κ α) (loaded : Loaded α) : Prop :=
  ∀ I ∈ w.invalidations, ∀ ended, I.key = R.key → I.stage = .returned ended → ended ≤ R.started →
    I.began ≤ loaded.began

def ResolveOk (w : World κ α) (R : Resolve κ α) : Prop :=
  R.started < w.now ∧
    match R.stage with
    | .get | .load | .returned none => True
    | .loading began => R.started ≤ began
    | .schedule loaded | .returned (some loaded) => NotOlder w R loaded

structure Inv (w : World κ α) : Prop where
  resolves : ∀ R ∈ w.resolves, ResolveOk w R
  invalidations : ∀ I ∈ w.invalidations, ∀ ended, I.stage = .returned ended → I.began ≤ ended
  began : ∀ I ∈ w.invalidations, I.began < w.now
  cache : ∀ key loaded, w.cache key = some loaded → ∀ I ∈ w.invalidations, I.key = key → I.stage.executed = true →
    I.began ≤ loaded.began

variable {pools : Nat → WritePool κ α}

/-- An invalidation that returns now has not returned before a resolve that has started. -/
theorem ResolveOk.later {R : Resolve κ α} (h : ResolveOk w R) (hnow : w.now ≤ w'.now)
    (hinv : ∀ I ∈ w'.invalidations, ∀ ended, I.stage = .returned ended → I ∈ w.invalidations ∨ w.now ≤ ended) :
    ResolveOk w' R := by
  have hkeep : ∀ loaded, NotOlder w R loaded → NotOlder w' R loaded := by
    intro loaded hold I hI ended hkey hstage hle
    rcases hinv I hI ended hstage with hI | hlate
    · exact hold I hI ended hkey hstage hle
    · exact absurd (Nat.lt_of_lt_of_le h.1 (Nat.le_trans hlate hle)) (Nat.lt_irrefl _)
  refine ⟨Nat.lt_of_lt_of_le h.1 hnow, ?_⟩
  have hstage := h.2
  cases hcur : R.stage with
  | get | load => exact trivial
  | loading began => simpa [hcur] using hstage
  | schedule loaded =>
    rw [hcur] at hstage
    exact hkeep loaded hstage
  | returned result =>
    rw [hcur] at hstage
    cases result with
    | none => exact trivial
    | some loaded => exact hkeep loaded hstage

section

variable (h : Inv w)
include h

/-- A step of a resolve, a worker or a proxy. -/
theorem Inv.setResolves {resolves : List (Resolve κ α)}
    (hres : ∀ R ∈ resolves, R ∈ w.resolves ∨ ResolveOk { w with now := w.now + 1 } R) :
    Inv { w with resolves, pools, now := w.now + 1 } where
  __ := h
  resolves R hR := by
    rcases hres R hR with hR | hok
    · exact (h.resolves R hR).later (Nat.le_succ _) fun I hI _ _ => .inl hI
    · exact hok
  began I hI := Nat.lt_succ_of_lt (h.began I hI)

theorem Inv.setPools : Inv { w with pools, now := w.now + 1 } :=
  h.setResolves fun _ => .inl

/-- Redis changes a key to what is not older than the invalidations. -/
theorem Inv.setCache [DecidableEq κ] {key : κ} {entry : Option (Loaded α)}
    (hentry : ∀ loaded, entry = some loaded → ∀ I ∈ w.invalidations, I.key = key → I.stage.executed = true →
      I.began ≤ loaded.began) :
    Inv { w with cache := update w.cache key entry, pools, now := w.now + 1 } where
  resolves R hR := (h.resolves R hR).later (Nat.le_succ _) fun I hI _ _ => .inl hI
  invalidations := h.invalidations
  began I hI := Nat.lt_succ_of_lt (h.began I hI)
  cache key' loaded hl I hI hkey hex := by
    by_cases heq : key' = key
    · subst heq
      simp only [update_self] at hl
      exact hentry loaded hl I hI hkey hex
    · simp only [update_of_ne heq] at hl
      exact h.cache key' loaded hl I hI hkey hex

theorem Inv.advanceResolve {r : Nat} {answer : Option α} {v : World κ α}
    (hs : w.advanceResolve c r answer = some v) : Inv { v with now := w.now + 1 } := by
  unfold World.advanceResolve at hs
  cases hr : w.resolves[r]? with
  | none => simp [hr] at hs
  | some R =>
    have hR : R ∈ w.resolves := mem_of_getElem? hr
    have hstart : R.started < w.now + 1 := Nat.lt_succ_of_lt (h.resolves R hR).1
    have hstage := (h.resolves R hR).2
    -- every other resolve stays as it is
    have hset : ∀ R', ResolveOk { w with now := w.now + 1 } R' → ∀ R'' ∈ w.resolves.set r R',
        R'' ∈ w.resolves ∨ ResolveOk { w with now := w.now + 1 } R'' := by
      intro R' hok R'' hR''
      rcases mem_or_eq_of_mem_set hR'' with hmem | rfl
      · exact .inl hmem
      · exact .inr hok
    simp only [hr] at hs
    cases hcur : R.stage with
    | get =>
      simp only [hcur] at hs
      cases hcache : w.cache R.key with
      | none =>
        rw [hcache] at hs
        cases hs
        exact h.setResolves (hset _ ⟨hstart, trivial⟩)
      | some loaded =>
        rw [hcache] at hs
        cases hs
        refine h.setResolves (hset _ ⟨hstart, fun I hI ended hkey hret _ => ?_⟩)
        exact h.cache R.key loaded hcache I hI hkey (by rw [hret]; rfl)
    | load =>
      simp only [hcur] at hs
      cases hs
      exact h.setResolves (hset _ ⟨hstart, Nat.le_of_lt (h.resolves R hR).1⟩)
    | loading began =>
      simp only [hcur] at hs hstage
      cases answer with
      | none =>
        cases hs
        exact h.setResolves (hset _ ⟨hstart, trivial⟩)
      | some resolved =>
        cases hs
        refine h.setResolves (hset _ ⟨hstart, fun I hI ended _ hret hle => ?_⟩)
        exact Nat.le_trans (h.invalidations I hI ended hret) (Nat.le_trans hle hstage)
    | schedule loaded =>
      simp only [hcur] at hs hstage
      cases hs
      exact h.setResolves (hset _ ⟨hstart, hstage⟩)
    | returned result => simp [hcur] at hs

/-- `J` is a new invalidation, or one that has gone on. -/
theorem Inv.setInvalidations {invalidations : List (Invalidation κ)} {cache : κ → Option (Loaded α)}
    {J : Invalidation κ}
    (hmem : ∀ I ∈ invalidations, I ∈ w.invalidations ∨ I = J) (hbegan : J.began ≤ w.now)
    (hret : ∀ ended, J.stage = .returned ended → ended = w.now)
    (hcache : ∀ key loaded, cache key = some loaded → w.cache key = some loaded ∧
      (J.key = key → J.stage.executed = true → J.began ≤ loaded.began)) :
    Inv { w with invalidations, cache, now := w.now + 1 } := by
  refine ⟨fun R hR => (h.resolves R hR).later (Nat.le_succ _) fun I hI ended he => ?_, fun I hI ended he => ?_,
    fun I hI => ?_, fun key loaded hl I hI => ?_⟩
  · rcases hmem I hI with hI | rfl
    · exact .inl hI
    · exact .inr (Nat.le_of_eq (hret ended he).symm)
  · rcases hmem I hI with hI | rfl
    · exact h.invalidations I hI ended he
    · rwa [hret ended he]
  · rcases hmem I hI with hI | rfl
    · exact Nat.lt_succ_of_lt (h.began I hI)
    · exact Nat.lt_succ_of_le hbegan
  · rcases hmem I hI with hI | rfl
    · exact h.cache key loaded (hcache key loaded hl).1 I hI
    · exact (hcache key loaded hl).2

theorem Inv.advanceInvalidate [DecidableEq κ] {i : Nat} {v : World κ α} (hs : w.advanceInvalidate i = some v) :
    Inv { v with now := w.now + 1 } := by
  unfold World.advanceInvalidate at hs
  cases hi : w.invalidations[i]? with
  | none => simp [hi] at hs
  | some I =>
    have hI : I ∈ w.invalidations := mem_of_getElem? hi
    have hbegan := Nat.le_of_lt (h.began I hI)
    simp only [hi] at hs
    cases hcur : I.stage with
    | del =>
      simp only [hcur] at hs
      cases hs
      refine h.setInvalidations (fun _ => mem_or_eq_of_mem_set) hbegan nofun fun key loaded hl => ?_
      have hne : key ≠ I.key := by
        rintro rfl
        simp at hl
      simp only [update_of_ne hne] at hl
      exact ⟨hl, fun hkey => absurd hkey.symm hne⟩
    | deleted =>
      simp only [hcur] at hs
      cases hs
      refine h.setInvalidations (fun _ => mem_or_eq_of_mem_set) hbegan (fun _ he => ?_) fun key loaded hl =>
        ⟨hl, fun hkey _ => h.cache key loaded hl I hI hkey (by rw [hcur]; rfl)⟩
      cases he
      rfl
    | returned ended => simp [hcur] at hs

theorem Inv.invalidate (key : κ) :
    Inv { w with invalidations := w.invalidations ++ [⟨key, w.now, .del⟩], now := w.now + 1 } :=
  h.setInvalidations (fun _ hJ => (mem_append.mp hJ).imp_right mem_singleton.mp) (Nat.le_refl _) nofun
    fun _ _ hl => ⟨hl, fun _ => nofun⟩

theorem Inv.step [DecidableEq κ] {a : Action κ α} (hc : populatesInTime w a = true)
    (hs : w.step c a = some w') : Inv w' := by
  obtain ⟨v, hv, rfl⟩ := map_eq_some_iff.mp hs
  cases a with
  | resolve p key =>
    cases hv
    refine h.setResolves fun R hR => (mem_append.mp hR).imp_right fun hR => ?_
    rw [mem_singleton.mp hR]
    exact ⟨Nat.lt_succ_self _, trivial⟩
  | advanceResolve r answer => exact h.advanceResolve hv
  | invalidate key =>
    cases hv
    exact h.invalidate key
  | advanceInvalidate i => exact h.advanceInvalidate hv
  | take p =>
    simp only [World.act, World.take] at hv
    split at hv
    · cases hv
    · obtain ⟨-, rfl⟩ := of_ite_some hv
      exact h.setPools
  | populate p worker =>
    simp only [World.act, World.populate] at hv
    cases hjob : (w.pools p).busy[worker]? with
    | none => simp [hjob] at hv
    | some job =>
      simp only [hjob, some.injEq] at hv
      subst hv
      refine h.setCache fun loaded hl I hI hkey hex => ?_
      cases hl
      have hall : ∀ I ∈ w.invalidations, (I.key = job.key → I.stage.executed = false) ∨
          I.began ≤ job.loaded.began := by
        simpa [populatesInTime, hjob, imp_iff_not_or] using hc
      rcases hall I hI with hnot | hle
      · exact absurd (hex.symm.trans (hnot hkey)) (by decide)
      · exact hle
  | expire key =>
    cases hv
    exact h.setCache nofun
  | shutdown p =>
    cases hv
    exact h.setPools

end

/-- A resolve that starts after an invalidation has returned returns nothing that was loaded before it. -/
theorem directive_fresh [DecidableEq κ] (hr : ((machine c).restrict populatesInTime).Reachable w) {R : Resolve κ α}
    {I : Invalidation κ} {loaded : Loaded α} {ended : Nat} (hR : R ∈ w.resolves) (hI : I ∈ w.invalidations)
    (hkey : I.key = R.key)
    (hended : I.stage = .returned ended) (hstart : ended ≤ R.started) (hret : R.stage = .returned (some loaded)) :
    I.began ≤ loaded.began := by
  have h : Inv w := by
    refine hr.invariant ?_ fun v a v' hi hs => ?_
    · rintro v rfl
      exact ⟨nofun, nofun, nofun, nofun⟩
    · obtain ⟨hc, hs⟩ := Machine.restrict_step_eq_some.mp hs
      exact hi.step hc hs
  have hok := (h.resolves R hR).2
  rw [hret] at hok
  exact hok I hI ended hkey hended hstart

def freshRun : List (Action Nat Nat) :=
  [.resolve 0 7, .advanceResolve 0 none, .advanceResolve 0 none, .advanceResolve 0 (some 1), .advanceResolve 0 none,
    .take 0, .populate 0 0, .invalidate 7, .advanceInvalidate 0, .advanceInvalidate 0, .resolve 1 7,
    .advanceResolve 1 none, .advanceResolve 1 none, .advanceResolve 1 (some 2), .advanceResolve 1 none]

def sampleConfig : PoolConfig := ⟨0, 0⟩

def freshWorld : World Nat Nat :=
  (((machine sampleConfig).restrict populatesInTime).run .initial freshRun).get (by decide +kernel)

theorem directive_fresh_sample : (⟨1, 7, 10, .returned (some ⟨2, 12⟩)⟩ : Resolve Nat Nat) ∈ freshWorld.resolves ∧
      (⟨7, 7, .returned 9⟩ : Invalidation Nat) ∈ freshWorld.invalidations ∧ 7 ≤ 12 := by
  have hr : ((machine sampleConfig).restrict populatesInTime).Reachable freshWorld :=
    ⟨_, rfl, _, (some_get _).symm⟩
  have hR : (⟨1, 7, 10, .returned (some ⟨2, 12⟩)⟩ : Resolve Nat Nat) ∈ freshWorld.resolves := by decide +kernel
  have hI : (⟨7, 7, .returned 9⟩ : Invalidation Nat) ∈ freshWorld.invalidations := by decide +kernel
  exact ⟨hR, hI, directive_fresh hr hR hI rfl rfl (by decide) rfl⟩

/-- A load begins, the invalidation deletes the key and returns, and only then the load is written. -/
def staleRun : List (Action Nat Nat) :=
  [.resolve 0 7, .advanceResolve 0 none, .advanceResolve 0 none, .invalidate 7, .advanceInvalidate 0,
    .advanceInvalidate 0, .advanceResolve 0 (some 1), .advanceResolve 0 none, .take 0, .populate 0 0, .resolve 1 7,
    .advanceResolve 1 none]

def staleWorld : World Nat Nat := ((machine sampleConfig).run .initial staleRun).get (by decide +kernel)

theorem directive_stale : (machine sampleConfig).Reachable staleWorld ∧
      (⟨7, 3, .returned 5⟩ : Invalidation Nat) ∈ staleWorld.invalidations ∧
      (⟨1, 7, 10, .returned (some ⟨1, 2⟩)⟩ : Resolve Nat Nat) ∈ staleWorld.resolves :=
  ⟨⟨_, rfl, _, (some_get _).symm⟩, by decide +kernel, by decide +kernel⟩

end IbexHarness.Directive
