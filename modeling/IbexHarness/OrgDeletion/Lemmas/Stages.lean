import IbexHarness.OrgDeletion.World

/-! A task that has passed the check for a hold has the advisory lock to the end of its transaction. -/

namespace IbexHarness.OrgDeletion

open Lib Option

def Settings.outcome (S : Settings) (s : Store) : ReceiptStatus :=
  if !S.deployed s then .notApplicable else if s = .postgres ∨ S.configured s then .verified else .failed

variable {S : Settings} {s : Store}

theorem Settings.outcome_postgres (S : Settings) : S.outcome .postgres = .verified := by
  simp [outcome, S.postgres_deployed]

theorem Settings.outcome_eq_notApplicable (h : S.deployed s = false) : S.outcome s = .notApplicable := by
  simp [outcome, h]

theorem Settings.outcome_eq_verified (h : S.deployed s = true)
    (hc : S.configured s = true) : S.outcome s = .verified := by
  simp [outcome, h, hc]

theorem Settings.outcome_eq_failed (hs : s ≠ .postgres) (h : S.deployed s = true)
    (hc : S.configured s = false) : S.outcome s = .failed := by
  simp [outcome, h, hc, hs]

def Store.index : Store → Nat
  | .postgres => 0
  | .clickhouse => 1
  | .redis => 2
  | .objectstore => 3

variable {S : Settings} {w w' : Tables} {t : Nat} {T : Task}

def Task.Erased (S : Settings) (w : Tables) (T : Task) (s : Store) : Prop :=
  S.deployed s = true → T.receipt w s = some .verified

def StageOk (S : Settings) (w : Tables) (t : Nat) (T : Task) : TaskStage → Prop
  | .checkHold => w.lock.exclusive = some (.task t)
  -- the check of `_finish_if_hold_blocked` comes before that of `_run_one_store`
  | .receipt s => s = .postgres → T.checked = true
  | .requireLock s => S.outcome s = .verified ∧ (s = .postgres → T.checked = true)
  | .requireHold s =>
    S.outcome s = .verified ∧ (s = .postgres → T.checked = true) ∧ w.lock.exclusive = some (.task t)
  | .run s => S.outcome s = .verified ∧ T.checked = true
  | .upsert s r => S.outcome s = r ∧ (r = .verified → ⟨T.job, s⟩ ∈ w.ran)
  | .failReceipt s => S.outcome s = .failed
  | .finalize s => ∀ s', s'.index < s.index → T.Erased S w s'
  | .certificate => ∀ s, T.Erased S w s
  | .finish .succeeded => T.certified = true
  | _ => True

structure TaskOk (S : Settings) (w : Tables) (t : Nat) (T : Task) : Prop where
  stage : StageOk S w t T T.stage
  checked : T.checked = true → w.lock.exclusive = some (.task t) ∧ w.hold = false
  purge : ∀ ids, T.purge = some ids → T.checked = true ∧ ∀ m ∈ w.memories, m ∈ ids
  jobs : ∀ j v, T.jobs.lookup j = some v → j = T.job
  receipts : ∀ k v, T.receipts.lookup k = some v →
    k.job = T.job ∧ v = some (S.outcome k.store) ∧ (S.outcome k.store = .verified → k ∈ w.ran)
  erased : T.certified = true ∨ T.jobs.lookup T.job = some (some .succeeded) → ∀ s, T.Erased S w s

/-! ## What the others do -/

structure Kept (w w' : Tables) (t : Nat) : Prop where
  lock : w.lock.exclusive = some (.task t) → w'.lock.exclusive = some (.task t)
  hold : w.lock.exclusive = some (.task t) → w.hold = false → w'.hold = false
  memories : w.lock.exclusive = some (.task t) → ∀ m ∈ w'.memories, m ∈ w.memories
  receipts : ∀ k v, w.receipts.rows k = some v → w'.receipts.rows k = some v
  ran : ∀ k ∈ w.ran, k ∈ w'.ran

theorem Task.Erased.kept (h : T.Erased S w s) (hk : Kept w w' t) : T.Erased S w' s := by
  intro hd
  have hr := h hd
  unfold Task.receipt at hr ⊢
  cases hl : T.receipts.lookup ⟨T.job, s⟩ with
  | some v => simpa [hl] using hr
  | none =>
    rw [hl, getD_none] at hr
    rw [getD_none, hk.receipts _ _ hr]

theorem StageOk.kept {stage : TaskStage} (h : StageOk S w t T stage) (hk : Kept w w' t) : StageOk S w' t T stage := by
  cases stage with
  | checkHold => exact hk.lock h
  | requireHold s => exact ⟨h.1, h.2.1, hk.lock h.2.2⟩
  | upsert s r => exact ⟨h.1, fun hr => hk.ran _ (h.2 hr)⟩
  | finalize s => exact fun s' hs => (h s' hs).kept hk
  | certificate => exact fun s => (h s).kept hk
  | finish status => cases status <;> exact h
  | _ => exact h

theorem TaskOk.kept (h : TaskOk S w t T) (hk : Kept w w' t) : TaskOk S w' t T where
  stage := h.stage.kept hk
  checked hc := ⟨hk.lock (h.checked hc).1, hk.hold (h.checked hc).1 (h.checked hc).2⟩
  purge ids hp := by
    obtain ⟨hc, hm⟩ := h.purge ids hp
    exact ⟨hc, fun m hm' => hm m (hk.memories (h.checked hc).1 m hm')⟩
  jobs := h.jobs
  receipts k v hl := by
    obtain ⟨hj, hv, hr⟩ := h.receipts k v hl
    exact ⟨hj, hv, fun ho => hk.ran k (hr ho)⟩
  erased he s := (h.erased he s).kept hk

def Fits (S : Settings) (w : Tables) (t : Nat) (T : Task) : Statement → Prop
  | .read next => StageOk S w t T next
  | .advisoryLock next =>
    next = .checkHold ∨ next = .finish .holdBlocked ∨
      ∃ s, next = .requireHold s ∧ S.outcome s = .verified ∧ (s = .postgres → T.checked = true)
  | .noHold next => w.lock.exclusive = some (.task t) ∧ w.hold = false ∧
    (next = .receipt .postgres ∨ ∃ s, next = .run s ∧ S.outcome s = .verified)
  | .claim next => next = .lock
  | .updateJob status next => next = .commit ∧ (status = .succeeded → T.certified = true)
  | .upsertReceipt s r next =>
    S.outcome s = r ∧ (r = .verified → ⟨T.job, s⟩ ∈ w.ran) ∧ (next = s.after ∨ next = .finish .failed)
  | .runStage s next => T.checked = true ∧ S.outcome s = .verified ∧ next = .upsert s .verified
  | .certify next => (∀ s, T.Erased S w s) ∧ next = .finish .succeeded
  | .raise unreachable => (∀ s, unreachable = some s → S.outcome s = .failed) ∧ T.stage ≠ .requireHold .postgres
  | .commit next => next = .publish ∨ next = .done

variable (S w T) in
/-- The statement of each stage, with what was read for it. -/
inductive Issues : TaskStage → Statement → Prop
  | claim (h : w.jobs.rows T.job = some .pending ∨ w.jobs.rows T.job = some .failed) : Issues .claim (.claim .lock)
  | unclaimed : Issues .claim (.read .done)
  | lock : Issues .lock (.advisoryLock .checkHold)
  | held (h : w.hold = true) : Issues .checkHold (.read .auditBlocked)
  | free (h : w.hold = false) : Issues .checkHold (.noHold (.receipt .postgres))
  | auditBlocked : Issues .auditBlocked (.advisoryLock (.finish .holdBlocked))
  | kept (k : Store) (h : T.receipt w k ≠ none) : Issues (.receipt k) (.read k.after)
  | undeployed (k : Store) (h : S.deployed k = false) : Issues (.receipt k) (.read (.upsert k .notApplicable))
  | unconfigured (k : Store) (hs : k ≠ .postgres) (hd : S.deployed k = true) (hc : S.configured k = false) :
    Issues (.receipt k) (.raise (some k))
  | wanted (k : Store) (h : S.outcome k = .verified) : Issues (.receipt k) (.read (.requireLock k))
  | requireLock (k : Store) : Issues (.requireLock k) (.advisoryLock (.requireHold k))
  | refused (k : Store) (h : w.hold = true) : Issues (.requireHold k) (.raise none)
  | allowed (k : Store) (h : w.hold = false) : Issues (.requireHold k) (.noHold (.run k))
  | run (k : Store) : Issues (.run k) (.runStage k (.upsert k .verified))
  | upsert (k : Store) (r : ReceiptStatus) : Issues (.upsert k r) (.upsertReceipt k r k.after)
  | commitPurge : Issues .commitPurge (.commit .publish)
  | publish : Issues .publish (.read (.receipt .clickhouse))
  | finalized (k : Store) (h : T.receipt w k = some (if S.deployed k then .verified else .notApplicable)) :
    Issues (.finalize k) (.read k.afterFinalize)
  | missing (k : Store) (h : T.receipt w k ≠ some (if S.deployed k then .verified else .notApplicable)) :
    Issues (.finalize k) (.read (.finish .failed))
  | certificate : Issues .certificate (.certify (.finish .succeeded))
  | finish (status : JobStatus) (h : (w.jobs.rows T.job).isSome) : Issues (.finish status) (.updateJob status .commit)
  | gone (status : JobStatus) (h : w.jobs.rows T.job = none) : Issues (.finish status) (.read .commit)
  | commit : Issues .commit (.commit .done)
  | failReceipt (k : Store) : Issues (.failReceipt k) (.upsertReceipt k .failed (.finish .failed))

theorem issues_runOptionalStore (hs : s ≠ .postgres) :
    Issues S w T (.receipt s) (runOptionalStore S s (T.receipt w s)) := by
  unfold runOptionalStore
  split_ifs with hr hd hc
  · exact .kept s (by rcases hr with hr | hr <;> simp [hr])
  · exact .undeployed s (by simpa using hd)
  · exact .unconfigured s hs (by simpa using hd) (by simpa using hc)
  · exact .wanted s (S.outcome_eq_verified (by simpa using hd) (by simpa using hc))

theorem issues_of_statement {st : Statement} (hst : T.statement S w = some st) : Issues S w T T.stage st := by
  unfold Task.statement at hst
  generalize T.stage = stage at hst
  split at hst
  case h_3 =>
    split at hst <;> cases hst
    · exact .claim (.inl ‹_›)
    · exact .claim (.inr ‹_›)
    · exact .unclaimed
  case h_7 =>
    cases hst
    unfold runOneStore
    split_ifs with hr
    · exact .kept _ (by simp [hr])
    · exact .wanted _ S.outcome_postgres
  case h_8 s hs =>
    cases hst
    exact issues_runOptionalStore hs
  all_goals cases hst
  all_goals try split_ifs
  all_goals constructor <;> simp_all

theorem erased_after {s' : Store} (h : ∀ s', s'.index < s.index → T.Erased S w s')
    (hr : T.receipt w s = some (if S.deployed s then .verified else .notApplicable)) (hlt : s'.index ≤ s.index) :
    T.Erased S w s' := by
  by_cases hs : s' = s
  · subst hs
    intro hd
    simpa [hd] using hr
  · refine h s' (Nat.lt_of_le_of_ne hlt fun heq => hs ?_)
    cases s <;> cases s' <;> first | rfl | simp [Store.index] at heq

theorem fits_statement (h : TaskOk S w t T) {st : Statement} (hst : T.statement S w = some st) : Fits S w t T st := by
  have hstage := h.stage
  have hissues := issues_of_statement hst
  generalize hcur : T.stage = stage at hstage hissues
  cases hissues with
  | claim | unclaimed | held | missing | gone => trivial
  | publish => exact nofun
  | lock | commitPurge => exact .inl rfl
  | commit => exact .inr rfl
  | auditBlocked => exact .inr (.inl rfl)
  | free hh => exact ⟨hstage, hh, .inl rfl⟩
  | kept s =>
    cases s with
    | postgres => trivial
    | clickhouse | redis => exact nofun
    | objectstore => exact fun s' h => absurd h (Nat.not_lt_zero _)
  | undeployed s hd => exact ⟨S.outcome_eq_notApplicable hd, nofun⟩
  | unconfigured s hs hd hc =>
    refine ⟨fun s' hs' => ?_, by simp [hcur]⟩
    cases hs'
    exact S.outcome_eq_failed hs hd hc
  | wanted s hs => exact ⟨hs, hstage⟩
  | requireLock s => exact .inr (.inr ⟨s, rfl, hstage⟩)
  | refused s hh =>
    refine ⟨nofun, fun hs => ?_⟩
    have hs : s = .postgres := TaskStage.requireHold.inj (hcur.symm.trans hs)
    exact absurd ((h.checked (hstage.2.1 hs)).2.symm.trans hh) (by decide)
  | allowed s hh => exact ⟨hstage.2.2, hh, .inr ⟨s, rfl, hstage.1⟩⟩
  | run => exact ⟨hstage.2, hstage.1, rfl⟩
  | upsert => exact ⟨hstage.1, hstage.2, .inl rfl⟩
  | finalized s hr =>
    have herased : ∀ s', s'.index ≤ s.index → T.Erased S w s' := fun s' => erased_after hstage hr
    cases s with
    | postgres | clickhouse | redis => exact fun s' hs' => herased s' (Nat.le_of_lt_succ hs')
    | objectstore => exact fun s' => herased s' (by cases s' <;> decide)
  | certificate => exact ⟨hstage, rfl⟩
  | finish status =>
    refine ⟨rfl, ?_⟩
    rintro rfl
    exact hstage
  | failReceipt => exact ⟨hstage, nofun, .inr rfl⟩

end IbexHarness.OrgDeletion
