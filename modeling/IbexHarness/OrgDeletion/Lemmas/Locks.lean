import IbexHarness.OrgDeletion.Lemmas.Commits
import IbexHarness.OrgDeletion.Lemmas.Stages

/-! A hold commits and a purge runs only under the exclusive lock, a memory is inserted only under the shared one. -/

namespace IbexHarness.OrgDeletion

open Lib Function List Option SharedLock

variable {S : Settings} {w w' : World} {t i : Nat} {o : Owner}

def HoldOk (w : Tables) (i : Nat) (stage : HoldStage) : Prop :=
  stage = .insert ∨ stage = .commit → w.lock.exclusive = some (.hold i)

structure WriteOk (w : Tables) (i : Nat) (stage : WriteStage) : Prop where
  lock : stage = .check ∨ stage = .insert ∨ stage = .commit → .write i ∈ w.lock.shared
  purged : stage = .insert ∨ stage = .commit → w.purged = []

structure Inv (S : Settings) (w : World) : Prop where
  tasks : ∀ t, TaskOk S w.toTables t (w.tasks t)
  holds : ∀ i, HoldOk w.toTables i (w.holds i)
  writes : ∀ i, WriteOk w.toTables i (w.writes i)
  receipts : ∀ k v, w.receipts.rows k = some v → v = S.outcome k.store ∧ (S.outcome k.store = .verified → k ∈ w.ran)
  purged : w.purged ≠ [] → w.deleted = true ∧ w.memories = []

/-! ## What a party changes -/

structure Moves (o : Owner) (w w' : Tables) : Prop where
  lock : ∀ o', o' ≠ o → w.lock.exclusive = some o' → w'.lock.exclusive = some o'
  shared : ∀ o', o' ≠ o → o' ∈ w.lock.shared → o' ∈ w'.lock.shared
  hold : (w.hold = false → w'.hold = false) ∨ w.lock.exclusive = some o
  memories : (∀ m ∈ w'.memories, m ∈ w.memories) ∨ o ∈ w.lock.shared
  purged : w'.purged = w.purged ∨ w.lock.exclusive = some o
  receipts : ∀ k v, w.receipts.rows k = some v → w'.receipts.rows k = some v
  ran : ∀ k ∈ w.ran, k ∈ w'.ran

theorem Moves.refl (o : Owner) (w : Tables) : Moves o w w :=
  ⟨fun _ _ => id, fun _ _ => id, .inl id, .inl fun _ => id, .inl rfl, fun _ _ => id, fun _ => id⟩

variable {T₁ T₂ : Tables}

theorem Moves.kept (h : Moves o T₁ T₂) (ht : .task t ≠ o) : Kept T₁ T₂ t where
  __ := h
  lock := h.lock _ ht
  hold hex := by
    rcases h.hold with hh | hh
    · exact hh
    · exact absurd (some.inj (hex.symm.trans hh)) ht
  memories hex := by
    rcases h.memories with hm | hm
    · exact hm
    · exact absurd hm (not_shared_of_exclusive hex)

theorem HoldOk.moves {stage : HoldStage} (h : HoldOk T₁ i stage) (hm : Moves o T₁ T₂) (hi : .hold i ≠ o) :
    HoldOk T₂ i stage := fun hs => hm.lock _ hi (h hs)

theorem WriteOk.moves {stage : WriteStage} (h : WriteOk T₁ i stage) (hm : Moves o T₁ T₂) (hi : .write i ≠ o) :
    WriteOk T₂ i stage where
  lock hs := hm.shared _ hi (h.lock hs)
  purged hs := by
    rcases hm.purged with hp | hp
    · exact hp.trans (h.purged hs)
    · exact absurd (h.lock (.inr hs)) (not_shared_of_exclusive hp)

def SelfOk (S : Settings) (w : World) : Owner → Prop
  | .task t => TaskOk S w.toTables t (w.tasks t)
  | .hold i => HoldOk w.toTables i (w.holds i)
  | .write i => WriteOk w.toTables i (w.writes i)

theorem Inv.moves (h : Inv S w) (hm : Moves o w.toTables w'.toTables)
    (htasks : ∀ t, .task t ≠ o → w'.tasks t = w.tasks t) (hholds : ∀ i, .hold i ≠ o → w'.holds i = w.holds i)
    (hwrites : ∀ i, .write i ≠ o → w'.writes i = w.writes i) (hself : SelfOk S w' o)
    (hreceipts : ∀ k v, w'.receipts.rows k = some v → v = S.outcome k.store ∧
      (S.outcome k.store = .verified → k ∈ w'.ran))
    (hpurged : w'.purged ≠ [] → w'.deleted = true ∧ w'.memories = []) : Inv S w' where
  tasks t := by
    by_cases ht : .task t = o
    · subst ht
      exact hself
    · rw [htasks t ht]
      exact (h.tasks t).kept (hm.kept ht)
  holds i := by
    by_cases hi : .hold i = o
    · subst hi
      exact hself
    · rw [hholds i hi]
      exact (h.holds i).moves hm hi
  writes i := by
    by_cases hi : .write i = o
    · subst hi
      exact hself
    · rw [hwrites i hi]
      exact (h.writes i).moves hm hi
  receipts := hreceipts
  purged := hpurged

theorem setTask_of_ne {T : Task} {t' : Nat} (h : Owner.task t' ≠ .task t) : (w.setTask t T).tasks t' = w.tasks t' :=
  update_of_ne (fun heq : t' = t => h (congrArg Owner.task heq)) _ _

theorem Inv.setTask {W : Tables} {T : Task} (h : Inv S w) (hm : Moves (.task t) w.toTables W)
    (hrows : W.receipts.rows = w.receipts.rows) (hpurged : W.purged = w.purged) (hdeleted : W.deleted = w.deleted)
    (hmemories : W.memories = w.memories) (hself : TaskOk S W t T) :
    Inv S ({ w with toTables := W }.setTask t T) := by
  refine h.moves (o := .task t) hm (fun t' ht' => setTask_of_ne ht') (fun _ _ => rfl) (fun _ _ => rfl) ?_ ?_ ?_
  · show TaskOk S W t (update w.tasks t T t)
    rwa [update_self]
  · intro k v hv
    obtain ⟨hv, hr⟩ := h.receipts k v (hrows ▸ hv)
    exact ⟨hv, fun ho => hm.ran k (hr ho)⟩
  · intro hp
    have hp' : w.purged ≠ [] := fun he => hp (hpurged.trans he)
    exact ⟨hdeleted.trans (h.purged hp').1, hmemories.trans (h.purged hp').2⟩

/-! ## Statements of a task -/

theorem moves_acquire {lock : SharedLock Owner} (hl : w.lock.acquire o = some lock) :
    Moves o w.toTables { w.toTables with lock } where
  __ := Moves.refl o w.toTables
  lock _ _ hex := SharedLock.exclusive_acquire hex hl
  shared _ _ hs := SharedLock.shared_acquire hs hl

theorem moves_release (receipts : RowStore ReceiptKey (Option ReceiptStatus) Nat)
    (jobs : RowStore Nat (Option JobStatus) Nat) (hrows : receipts.rows = w.receipts.rows) :
    Moves o w.toTables { w.toTables with lock := w.lock.release o, receipts, jobs } where
  __ := Moves.refl o w.toTables
  lock _ ho hex := SharedLock.exclusive_release hex ho
  shared _ ho hs := SharedLock.shared_release hs ho
  receipts _ _ hv := by rwa [← hrows] at hv

variable {W : Tables} {T : Task} {next : TaskStage}

theorem TaskOk.read (h : TaskOk S W t T) (hn : StageOk S W t T next) : TaskOk S W t { T with stage := next } :=
  { h with stage := hn }

theorem TaskOk.acquire {lock : SharedLock Owner} (h : TaskOk S W t T) (hl : W.lock.acquire (.task t) = some lock) :
    TaskOk S { W with lock } t T := by
  have hex := exclusive_of_acquire hl
  exact h.kept ⟨fun _ => hex, fun _ => id, fun _ _ => id, fun _ _ => id, fun _ => id⟩

theorem TaskOk.ended {phase : Phase} {claimed : Bool} (h : StageOk S W t (T.ended phase next claimed) next) :
    TaskOk S W t (T.ended phase next claimed) :=
  ⟨h, nofun, nofun, nofun, nofun, nofun⟩

theorem TaskOk.lookup_cons {status : Option JobStatus} (h : TaskOk S W t T) (j : Nat) (v : Option JobStatus)
    (hl : List.lookup j ((T.job, status) :: T.jobs) = some v) : j = T.job := by
  rw [List.lookup_cons] at hl
  by_cases hj : j = T.job
  · exact hj
  · simp only [beq_eq_false_iff_ne.mpr hj] at hl
    exact h.jobs j v hl

theorem stageOk_after (s : Store) : StageOk S W t T s.after := by
  cases s with
  | postgres => exact trivial
  | clickhouse | redis => exact nofun
  | objectstore => exact fun s' hs => absurd hs (Nat.not_lt_zero _)

section

variable (h : Inv S w)
include h

theorem Inv.outcome_of_receipt {s : Store} {v : ReceiptStatus}
    (hr : (w.tasks t).receipt w.toTables s = some v) : v = S.outcome s := by
  unfold Task.receipt at hr
  cases hl : (w.tasks t).receipts.lookup ⟨(w.tasks t).job, s⟩ with
  | some d =>
    rw [hl, getD_some, ((h.tasks t).receipts _ _ hl).2.1] at hr
    exact (some.inj hr).symm
  | none =>
    rw [hl, getD_none] at hr
    exact (h.receipts _ _ hr).1

theorem Inv.upsertReceipt {s : Store} {r : ReceiptStatus}
    {receipts : RowStore ReceiptKey (Option ReceiptStatus) Nat}
    (ha : w.receipts.acquire t ⟨(w.tasks t).job, s⟩ = some receipts) (hr : S.outcome s = r)
    (hran : r = .verified → ⟨(w.tasks t).job, s⟩ ∈ w.ran) (hn : next = s.after ∨ next = .finish .failed) :
    Inv S ({ w with receipts }.setTask t { w.tasks t with
      stage := next, receipts := (⟨(w.tasks t).job, s⟩, some r) :: (w.tasks t).receipts }) := by
  have hrows := RowStore.rows_of_acquire ha
  have hm : Moves (.task t) w.toTables { w.toTables with receipts } :=
    { Moves.refl (.task t) w.toTables with receipts := fun _ _ hv => by rwa [← hrows] at hv }
  have htask := h.tasks t
  refine h.setTask hm hrows rfl rfl rfl { htask with stage := ?_, receipts := ?_, erased := ?_ }
  · rcases hn with rfl | rfl
    · exact stageOk_after s
    · exact trivial
  · intro k v hl
    rw [lookup_cons] at hl
    by_cases hk : k = ⟨(w.tasks t).job, s⟩
    · subst hk
      simp only [beq_self_eq_true, some.injEq] at hl
      exact ⟨rfl, by rw [← hl, hr], fun ho => hran (hr.symm.trans ho)⟩
    · simp only [beq_eq_false_iff_ne.mpr hk] at hl
      exact htask.receipts k v hl
  · intro he s' hd
    have hold := htask.erased he s' hd
    show ((List.lookup ⟨(w.tasks t).job, s'⟩ ((⟨(w.tasks t).job, s⟩, some r) :: (w.tasks t).receipts)).getD
      (receipts.rows ⟨(w.tasks t).job, s'⟩)) = some .verified
    rw [lookup_cons, hrows]
    by_cases hs : s' = s
    · subst hs
      simp only [beq_self_eq_true, getD_some, ← hr, ← h.outcome_of_receipt hold]
    · have hk : (⟨(w.tasks t).job, s'⟩ : ReceiptKey) ≠ ⟨(w.tasks t).job, s⟩ := fun heq => hs (ReceiptKey.mk.inj heq).2
      simp only [beq_eq_false_iff_ne.mpr hk]
      exact hold

theorem Inv.rollback {phase : Phase} (hn : ∀ claimed, StageOk S { w.toTables with
      jobs := w.jobs.rollback t, receipts := w.receipts.rollback t, lock := w.lock.release (.task t) } t
      ((w.tasks t).ended phase next claimed) next) : Inv S (w.rollback t phase next) :=
  h.setTask (moves_release (w.receipts.rollback t) (w.jobs.rollback t) rfl) rfl rfl rfl rfl (.ended (hn _))

theorem Inv.raise {unreachable : Option Store} (hu : ∀ s, unreachable = some s → S.outcome s = .failed) :
    Inv S (w.raise t unreachable) := by
  unfold World.raise
  split_ifs
  · exact h.rollback fun _ => trivial
  · cases unreachable with
    | none => exact h.rollback fun _ => trivial
    | some s => exact h.rollback fun _ => hu s rfl

theorem Inv.receipts_commit {k : ReceiptKey} {v : ReceiptStatus}
    (hv : (w.receipts.commitAll t (w.tasks t).receipts).rows k = some v) :
    v = S.outcome k.store ∧ (S.outcome k.store = .verified → k ∈ w.ran) := by
  simp only [RowStore.commitAll, RowStore.rollback] at hv
  cases hl : (w.tasks t).receipts.lookup k with
  | none =>
    rw [hl, getD_none] at hv
    exact h.receipts k v hv
  | some d =>
    obtain ⟨-, hd, hran⟩ := (h.tasks t).receipts k d hl
    rw [hl, getD_some, hd] at hv
    exact ⟨(some.inj hv).symm, hran⟩

theorem Inv.moves_commit (t : Nat) (next : TaskStage) : Moves (.task t) w.toTables (w.commit t next).toTables where
  lock _ ho hex := SharedLock.exclusive_release hex ho
  shared _ ho hs := SharedLock.shared_release hs ho
  hold := .inl id
  memories := .inl fun m hm => by
    simp only [World.commit, World.setTask] at hm
    cases hp : (w.tasks t).purge with
    | none => simpa [hp] using hm
    | some ids =>
      simp only [hp, elim_some, mem_filter] at hm
      exact hm.1
  purged := by
    cases hp : (w.tasks t).purge with
    | none => exact .inl (by simp [World.commit, World.setTask, hp])
    | some ids => exact .inr ((h.tasks t).checked ((h.tasks t).purge ids hp).1).1
  receipts k v hv := by
    have hold := (h.receipts k v hv).1
    cases hv' : (w.commit t next).receipts.rows k with
    | some v' => rw [(h.receipts_commit hv').1, hold]
    | none =>
      simp only [World.commit, World.setTask, RowStore.commitAll, RowStore.rollback] at hv'
      cases hl : (w.tasks t).receipts.lookup k with
      | none =>
        rw [hl, getD_none, hv] at hv'
        cases hv'
      | some d =>
        rw [hl, getD_some, ((h.tasks t).receipts k d hl).2.1] at hv'
        cases hv'
  ran _ := id

theorem Inv.memories_commit {ids : List Nat} (hp : (w.tasks t).purge = some ids) :
    w.memories.filter (· ∉ ids) = [] := by
  have hall := ((h.tasks t).purge ids hp).2
  rw [filter_eq_nil_iff]
  intro m hm
  simpa using hall m hm

theorem Inv.commit (hn : next = .publish ∨ next = .done) : Inv S (w.commit t next) := by
  refine h.moves (o := .task t) (h.moves_commit t next) (fun t' ht' => setTask_of_ne ht') (fun _ _ => rfl)
    (fun _ _ => rfl) ?_ (fun k v hv => h.receipts_commit hv) ?_
  · show TaskOk S _ t (update w.tasks t _ t)
    rw [update_self]
    refine .ended ?_
    rcases hn with rfl | rfl <;> exact trivial
  · intro hp
    simp only [World.commit, World.setTask] at hp ⊢
    cases hpurge : (w.tasks t).purge with
    | none =>
      simp only [hpurge, isSome_none, Bool.false_eq_true, if_false] at hp
      simpa [hpurge] using h.purged hp
    | some ids => simpa [hpurge] using h.memories_commit hpurge

theorem Inv.exec {st : Statement} (hf : Fits S w.toTables t (w.tasks t) st)
    (hs : w.exec t st = some w') : Inv S w' := by
  have htask := h.tasks t
  cases st with
  | read next =>
    cases hs
    exact h.setTask (.refl _ _) rfl rfl rfl rfl (htask.read hf)
  | advisoryLock next =>
    obtain ⟨lock, hl, rfl⟩ := map_eq_some_iff.mp hs
    have hex := exclusive_of_acquire hl
    refine h.setTask (moves_acquire hl) rfl rfl rfl rfl ((htask.acquire hl).read ?_)
    rcases hf with rfl | rfl | ⟨s, rfl, ho, hc⟩
    · exact hex
    · exact trivial
    · exact ⟨ho, hc, hex⟩
  | noHold next =>
    cases hs
    obtain ⟨hex, hh, hn⟩ := hf
    refine h.setTask (.refl _ _) rfl rfl rfl rfl
      { htask with stage := ?_, checked := fun _ => ⟨hex, hh⟩, purge := fun ids hp => ⟨rfl, (htask.purge ids hp).2⟩ }
    rcases hn with rfl | ⟨s, rfl, ho⟩
    · exact fun _ => rfl
    · exact ⟨ho, rfl⟩
  | claim next =>
    obtain ⟨jobs, -, rfl⟩ := map_eq_some_iff.mp hs
    cases hf
    refine h.setTask (W := { w.toTables with jobs }) { Moves.refl (.task t) w.toTables with } rfl rfl rfl rfl
      { htask with stage := trivial, jobs := htask.lookup_cons, erased := ?_ }
    intro he
    refine htask.erased (.inl (he.resolve_right ?_))
    simp
  | updateJob status next =>
    obtain ⟨jobs, -, rfl⟩ := map_eq_some_iff.mp hs
    obtain ⟨rfl, hcert⟩ := hf
    refine h.setTask (W := { w.toTables with jobs }) { Moves.refl (.task t) w.toTables with } rfl rfl rfl rfl
      { htask with stage := trivial, jobs := htask.lookup_cons, erased := ?_ }
    intro he
    refine htask.erased (.inl (he.elim id fun hl => hcert ?_))
    simpa [lookup_cons] using hl
  | upsertReceipt s r next =>
    obtain ⟨receipts, ha, rfl⟩ := map_eq_some_iff.mp hs
    exact h.upsertReceipt ha hf.1 hf.2.1 hf.2.2
  | runStage s next =>
    cases hs
    obtain ⟨hc, ho, rfl⟩ := hf
    have hk : Kept w.toTables { w.toTables with ran := ⟨(w.tasks t).job, s⟩ :: w.ran } t :=
      ⟨id, fun _ => id, fun _ _ => id, fun _ _ => id, fun _ => mem_cons_of_mem _⟩
    have hkept := htask.kept hk
    refine h.setTask { Moves.refl (.task t) w.toTables with ran := fun _ => mem_cons_of_mem _ } rfl rfl rfl rfl
      { hkept with stage := ⟨ho, fun _ => mem_cons_self⟩, purge := ?_ }
    intro ids hp
    refine ⟨hc, ?_⟩
    by_cases hs : s = .postgres
    · simp only [hs, if_true, some.injEq] at hp
      exact fun m hm => hp ▸ hm
    · simp only [hs, if_false] at hp
      exact (hkept.purge ids hp).2
  | certify next =>
    obtain ⟨lock, hl, rfl⟩ := map_eq_some_iff.mp hs
    obtain ⟨herased, rfl⟩ := hf
    have hacq := htask.acquire hl
    exact h.setTask (moves_acquire hl) rfl rfl rfl rfl
      { hacq with stage := rfl, erased := fun _ s => herased s }
  | raise unreachable =>
    cases hs
    exact h.raise hf.1
  | commit next =>
    cases hs
    exact h.commit hf

end

/-! ## Requests, holds and writes -/

section

variable (h : Inv S w)
include h

theorem Inv.setJobs (jobs : RowStore Nat (Option JobStatus) Nat) (cancelled : Bool) :
    Inv S { w with jobs, cancelled } where
  __ := h
  tasks t := (h.tasks t).kept ⟨id, fun _ => id, fun _ _ => id, fun _ _ => id, fun _ => id⟩
  writes i := ⟨(h.writes i).lock, (h.writes i).purged⟩

theorem Inv.setHoldStage {stage : HoldStage}
    (hm : Moves (.hold i) w.toTables W) (hrows : W.receipts = w.receipts) (hran : W.ran = w.ran)
    (hpurged : W.purged = w.purged) (hdeleted : W.deleted = w.deleted) (hmemories : W.memories = w.memories)
    (hself : HoldOk W i stage) : Inv S ({ w with toTables := W }.setHoldStage i stage) := by
  refine h.moves (o := .hold i) hm (fun _ _ => rfl) (fun i' hi' => ?_) (fun _ _ => rfl) ?_ ?_ ?_
  · exact update_of_ne (fun heq : i' = i => hi' (congrArg Owner.hold heq)) _ _
  · show HoldOk W i (update w.holds i stage i)
    rwa [update_self]
  · simpa [World.setHoldStage, hrows, hran] using h.receipts
  · simpa [World.setHoldStage, hpurged, hdeleted, hmemories] using h.purged

theorem Inv.endHold (i : Nat) : Inv S (w.endHold i) :=
  h.setHoldStage (moves_release w.receipts w.jobs rfl) rfl rfl rfl rfl rfl
    (by simp [HoldOk])

theorem Inv.advanceHold (hs : w.advanceHold i = some w') : Inv S w' := by
  have hhold := h.holds i
  unfold World.advanceHold at hs
  cases hcur : w.holds i with
  | idle | done => simp [hcur] at hs
  | lock =>
    simp only [hcur] at hs
    obtain ⟨lock, hl, rfl⟩ := map_eq_some_iff.mp hs
    exact h.setHoldStage (moves_acquire hl) rfl rfl rfl rfl rfl fun _ => exclusive_of_acquire hl
  | insert =>
    simp only [hcur, some.injEq] at hs
    subst hs
    split_ifs
    · exact h.endHold i
    · exact h.setHoldStage (.refl _ _) rfl rfl rfl rfl rfl fun _ => hhold (.inl hcur)
  | commit =>
    simp only [hcur, some.injEq] at hs
    subst hs
    have hex := hhold (.inr hcur)
    refine h.setHoldStage ⟨?_, ?_, .inr hex, .inl fun _ => id, .inl rfl, fun _ _ => id, fun _ => id⟩
      rfl rfl rfl rfl rfl (by simp [HoldOk])
    · exact fun _ ho hex' => exclusive_release hex' ho
    · exact fun _ ho hs => shared_release hs ho

theorem Inv.clearHold : Inv S { w with hold := false } where
  __ := h
  tasks t := (h.tasks t).kept ⟨id, fun _ _ => rfl, fun _ _ => id, fun _ _ => id, fun _ => id⟩
  writes i := ⟨(h.writes i).lock, (h.writes i).purged⟩

theorem Inv.setWriteStage {stage : WriteStage}
    (hm : Moves (.write i) w.toTables W) (hrows : W.receipts = w.receipts) (hran : W.ran = w.ran)
    (hpurged : W.purged ≠ [] → W.deleted = true ∧ W.memories = []) (hself : WriteOk W i stage) :
    Inv S ({ w with toTables := W }.setWriteStage i stage) := by
  refine h.moves (o := .write i) hm (fun _ _ => rfl) (fun _ _ => rfl) (fun i' hi' => ?_) ?_ ?_ hpurged
  · exact update_of_ne (fun heq : i' = i => hi' (congrArg Owner.write heq)) _ _
  · show WriteOk W i (update w.writes i stage i)
    rwa [update_self]
  · simpa [World.setWriteStage, hrows, hran] using h.receipts

theorem Inv.failWrite (i : Nat) : Inv S (w.endWrite i .failed) :=
  h.setWriteStage (moves_release w.receipts w.jobs rfl) rfl rfl h.purged ⟨by simp, by simp⟩

theorem Inv.advanceWrite (hs : w.advanceWrite i = some w') : Inv S w' := by
  have hwrite := h.writes i
  unfold World.advanceWrite at hs
  cases hcur : w.writes i with
  | idle | committed | failed => simp [hcur] at hs
  | lock =>
    simp only [hcur] at hs
    obtain ⟨lock, hl, rfl⟩ := map_eq_some_iff.mp hs
    have hshared := shared_share hl
    refine h.setWriteStage ⟨fun _ _ hex => ?_, fun _ _ hs => ?_, .inl id, .inl fun _ => id, .inl rfl, fun _ _ => id,
      fun _ => id⟩ rfl rfl h.purged ⟨fun _ => ?_, by simp⟩
    · rw [(exclusive_share hl).1] at hex
      cases hex
    · exact hshared ▸ mem_cons_of_mem _ hs
    · exact hshared ▸ mem_cons_self
  | check =>
    simp only [hcur, some.injEq] at hs
    subst hs
    split_ifs with hgone
    · exact h.failWrite i
    · refine h.setWriteStage (.refl _ _) rfl rfl h.purged ⟨fun _ => hwrite.lock (.inl hcur), fun _ => ?_⟩
      by_contra hp
      simp [(h.purged hp).1] at hgone
  | insert =>
    simp only [hcur, some.injEq] at hs
    subst hs
    exact h.setWriteStage (.refl _ _) rfl rfl h.purged
      ⟨fun _ => hwrite.lock (.inr (.inl hcur)), fun _ => hwrite.purged (.inl hcur)⟩
  | commit =>
    simp only [hcur, some.injEq] at hs
    subst hs
    have hpurged := hwrite.purged (.inr hcur)
    refine h.setWriteStage ⟨?_, ?_, .inl id, .inr (hwrite.lock (.inr (.inr hcur))), .inl rfl, fun _ _ => id, fun _ =>
      id⟩
      rfl rfl (fun hp => absurd hpurged hp) ⟨by simp, by simp⟩
    · exact fun _ ho hex => exclusive_release hex ho
    · exact fun _ ho hs => shared_release hs ho

end

theorem Inv.initial (h : w.initial) : Inv S w := by
  obtain ⟨hlock, -, hreceipts, -, hpurged, -, -, -, htasks, hholds, hwrites, -⟩ := h
  refine ⟨fun t => ?_, fun i => ?_, fun i => ?_, fun k v hv => ?_, fun hp => absurd hpurged hp⟩
  · rw [htasks]
    exact ⟨trivial, nofun, nofun, nofun, nofun, nofun⟩
  · simp [HoldOk, hholds]
  · exact ⟨by simp [hwrites], by simp [hwrites]⟩
  · simp [hreceipts] at hv

theorem Inv.step (h : Inv S w) {a : Action} (hs : w.step S a = some w') : Inv S w' := by
  cases a with
  | request | advanceRequest | timeout | failRequest | publish | returnThread | raiseThread | redeliver =>
    obtain ⟨jobs, cancelled, requests, nextRequest, queue, rfl, -⟩ := api_eq (by simp [Action.party]) hs
    have hset := h.setJobs jobs cancelled
    exact { hset with }
  | deliver j =>
    obtain ⟨-, rfl⟩ := of_ite_some hs
    have hstart : TaskOk S w.toTables w.nextTask (.start j) := by
      refine ⟨trivial, ?_, ?_, ?_, ?_, ?_⟩ <;> simp [Task.start, Task.idle]
    have hset := h.setTask (.refl _ _) rfl rfl rfl rfl hstart
    exact { hset with }
  | advance t =>
    obtain ⟨st, hst, hs⟩ := bind_eq_some_iff.mp hs
    exact h.exec (fits_statement (h.tasks t) hst) hs
  | error t =>
    obtain ⟨-, rfl⟩ := of_ite_some hs
    exact h.raise (by simp)
  | crash t =>
    obtain ⟨-, rfl⟩ := of_ite_some hs
    have hroll : Inv S (w.rollback t (w.tasks t).phase .done) := h.rollback fun _ => trivial
    exact { hroll with }
  | setHold =>
    cases hs
    have hset : Inv S (w.setHoldStage w.nextHold .lock) :=
      h.setHoldStage (.refl _ _) rfl rfl rfl rfl rfl (by simp [HoldOk])
    exact { hset with }
  | advanceHold i => exact h.advanceHold hs
  | abortHold i =>
    obtain ⟨-, rfl⟩ := of_ite_none hs
    exact h.endHold i
  | clearHold =>
    cases hs
    exact h.clearHold
  | write =>
    cases hs
    have hset : Inv S (w.setWriteStage w.nextWrite .lock) :=
      h.setWriteStage (.refl _ _) rfl rfl h.purged ⟨by simp, by simp⟩
    exact { hset with }
  | advanceWrite i => exact h.advanceWrite hs
  | abortWrite i =>
    obtain ⟨-, rfl⟩ := of_ite_some hs
    exact h.failWrite i

theorem inv_of_reachable (h : (machine S).Reachable w) : Inv S w :=
  h.invariant (fun _ h₀ => .initial h₀) fun _ _ _ hi hs => hi.step hs

end IbexHarness.OrgDeletion
