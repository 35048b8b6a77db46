import IbexHarness.Memory.Lifecycle

/-! What a transaction has found in the rows it has locked, and what it has written to them, stays as it is until it
ends. -/

namespace IbexHarness.Memory

section

open Lib

theorem agentID_bumpSession (old new : SessionRow) : (bumpSessionLifecycleRevision old new).agentID = new.agentID := by
  unfold bumpSessionLifecycleRevision
  split_ifs <;> rfl

theorem revision_le_bumpSession (old new : SessionRow) :
    old.lifecycleRevision ≤ (bumpSessionLifecycleRevision old new).lifecycleRevision := by
  unfold bumpSessionLifecycleRevision
  split_ifs <;> dsimp only <;> omega

theorem revision_lt_bumpSession {old new : SessionRow} (h : new.lifecycleRevision ≠ old.lifecycleRevision) :
    old.lifecycleRevision < (bumpSessionLifecycleRevision old new).lifecycleRevision := by
  unfold bumpSessionLifecycleRevision
  split_ifs <;> dsimp only <;> omega

theorem bumpMemory_eq {old new row : MemoryRow} {content : Bool}
    (h : bumpMemoryLifecycleRevision old new content = some row) :
    row = { new with lifecycleRevision := row.lifecycleRevision } ∧ old.lifecycleRevision ≤ row.lifecycleRevision ∧
      (new.tombstoned ≠ old.tombstoned → old.lifecycleRevision < row.lifecycleRevision) := by
  unfold bumpMemoryLifecycleRevision at h
  split_ifs at h with hterm hchange
  · cases h
    exact ⟨rfl, Int.le_of_lt (Int.lt_succ _), fun _ => Int.lt_succ _⟩
  · cases h
    exact ⟨rfl, le_rfl, fun hne => absurd (.inr (.inr (.inl hne))) hchange⟩

/-! ## How rows change -/

def SessionEvolves (old new : Option SessionRow) : Prop :=
  ∃ r, old = some r ∧ ∃ r', new = some r' ∧ r'.agentID = r.agentID ∧ r.lifecycleRevision ≤ r'.lifecycleRevision

def MemoryEvolves (old new : Option MemoryRow) : Prop :=
  ∃ r', new = some r' ∧ ∀ r, old = some r → r.tombstoned = false ∧ r'.agentID = r.agentID ∧
    r'.sessionID = r.sessionID ∧ r.lifecycleRevision ≤ r'.lifecycleRevision

/-- The rows of `T` are in `T'`, with revisions that are not lower and with the same tombstones. -/
structure Grows (T T' : Tables) : Prop where
  sessions : ∀ s r, T.sessions.rows s = some r → ∃ r', T'.sessions.rows s = some r' ∧ r'.agentID = r.agentID ∧
    r.lifecycleRevision ≤ r'.lifecycleRevision
  memories : ∀ m r, T.memories.rows m = some r → ∃ r', T'.memories.rows m = some r' ∧ r'.agentID = r.agentID ∧
    r'.sessionID = r.sessionID ∧ r.lifecycleRevision ≤ r'.lifecycleRevision ∧ (r.tombstoned = true → r' = r)
  next : T.nextMemoryID ≤ T'.nextMemoryID

variable {T T' T'' : Tables} {t t' : Nat}

theorem Grows.of_rows (hs : T'.sessions.rows = T.sessions.rows) (hm : T'.memories.rows = T.memories.rows)
    (hn : T.nextMemoryID ≤ T'.nextMemoryID) : Grows T T' :=
  ⟨fun s r h => ⟨r, by rw [hs, h], rfl, le_rfl⟩, fun m r h => ⟨r, by rw [hm, h], rfl, rfl, le_rfl, fun _ => rfl⟩, hn⟩

theorem Grows.trans (h : Grows T T') (h' : Grows T' T'') : Grows T T'' := by
  refine ⟨?_, ?_, Nat.le_trans h.next h'.next⟩
  · intro s r hr
    obtain ⟨r₁, hr₁, ha₁, hl₁⟩ := h.sessions s r hr
    obtain ⟨r₂, hr₂, ha₂, hl₂⟩ := h'.sessions s r₁ hr₁
    exact ⟨r₂, hr₂, ha₂.trans ha₁, Int.le_trans hl₁ hl₂⟩
  · intro m r hr
    obtain ⟨r₁, hr₁, ha₁, hs₁, hl₁, ht₁⟩ := h.memories m r hr
    obtain ⟨r₂, hr₂, ha₂, hs₂, hl₂, ht₂⟩ := h'.memories m r₁ hr₁
    refine ⟨r₂, hr₂, ha₂.trans ha₁, hs₂.trans hs₁, Int.le_trans hl₁ hl₂, fun ht => ?_⟩
    obtain rfl := ht₁ ht
    exact ht₂ ht

structure Kept (t : Nat) (T T' : Tables) : Prop where
  sessions : ∀ s (P : SessionRow → Prop), T.sessions.Holds t s (fun x => ∃ r, x = some r ∧ P r) →
    T'.sessions.Holds t s fun x => ∃ r, x = some r ∧ P r
  memories : ∀ m P, T.memories.Holds t m P → T'.memories.Holds t m P
  grows : Grows T T'

/-! ## What a transaction knows -/

/-- The id of a memory was given out, and its session is there and has the memory's agent. -/
def Sourced (T : Tables) (m : Nat) (row : MemoryRow) : Prop :=
  m < T.nextMemoryID ∧ ∀ s, row.sessionID = some s → ∃ r, T.sessions.rows s = some r ∧ r.agentID = row.agentID

/-- The session of the command is locked, at the revision that the command expects. -/
def Fenced (T : Tables) (t : Nat) (c : Command) : Prop :=
  ∀ s, c.sessionID = some s → T.sessions.Holds t s fun x =>
    ∃ r, x = some r ∧ r.agentID = c.agentID ∧ c.expectedSessionRevision = some r.lifecycleRevision

/-- The memory of the request is there, and `source` is its session if the request may see the memory. -/
def FromSource (T : Tables) (f : ForgetMemory) (source : Option Uuid) : Prop :=
  ∀ m, f.memoryID = some m → ∃ row, T.memories.rows m = some row ∧ (row.agentID = f.agentID → row.sessionID = source)

def LockedSource (T : Tables) (t : Nat) (f : ForgetMemory) (source : Option Uuid) : Prop :=
  ∀ s, source = some s → T.sessions.Holds t s fun x => ∃ r, x = some r ∧ r.agentID = f.agentID

/-- The memory of the request is locked and its tombstone is written. -/
def TombstoneWritten (T : Tables) (t : Nat) (x : Txn) (f : ForgetMemory) (source : Option Uuid) : Prop :=
  ∃ m row new, f.memoryID = some m ∧ T.memories.Holds t m (· = some row) ∧ row.sessionID = source ∧
    x.memories.lookup m = some (some new) ∧ row.lifecycleRevision < new.lifecycleRevision ∧
    new.status = .deleted ∧ new.tombstoned = true

def SourceAdvanced (T : Tables) (t : Nat) (x : Txn) (source : Option Uuid) : Prop :=
  ∀ s, source = some s → T.sessions.Holds t s fun row =>
    ∃ r, row = some r ∧ ∃ r', x.sessions.lookup s = some (some r') ∧ r.lifecycleRevision < r'.lifecycleRevision

def StageInv (T : Tables) (t : Nat) (x : Txn) : Stage → Prop
  | .writePersist c | .writeSupersede c _ _ | .writeCommit c => Fenced T t c
  | .forgetLock f | .forgetSource f => ∀ m, f.memoryID = some m → ∃ row, T.memories.rows m = some row
  | .forgetSession f s => FromSource T f (some s)
  | .forgetTarget f source | .forgetTombstone f source => FromSource T f source ∧ LockedSource T t f source
  | .forgetAdvance f source => LockedSource T t f source ∧ TombstoneWritten T t x f source
  | .forgetCommit f => ∃ source, TombstoneWritten T t x f source ∧ SourceAdvanced T t x source
  | .idle | .writeLock _ | .writeFence _ | .piiLock _ | .piiUpdate _ | .updateRow _ _ | .updateCommit | .done => True

structure TxnInv (T : Tables) (t : Nat) (x : Txn) : Prop where
  sessions : T.sessions.Drafted t x.sessions SessionEvolves
  memories : T.memories.Drafted t x.memories MemoryEvolves
  sourced : ∀ m row, x.memories.lookup m = some (some row) → Sourced T m row
  stage : StageInv T t x x.stage

structure Inv (T₀ : Tables) (w : World) : Prop where
  since : Grows T₀ w.toTables
  sourced : ∀ m row, w.memories.rows m = some row → Sourced w.toTables m row
  txns : ∀ t, TxnInv w.toTables t (w.txns t)

section Frame

variable {x : Txn} {c : Command} {f : ForgetMemory} {source : Option Uuid} {m : Nat} {row : MemoryRow}

theorem Sourced.grows (h : Sourced T m row) (hg : Grows T T') : Sourced T' m row := by
  refine ⟨Nat.lt_of_lt_of_le h.1 hg.next, fun s hs => ?_⟩
  obtain ⟨r, hr, ha⟩ := h.2 s hs
  obtain ⟨r', hr', ha', -⟩ := hg.sessions s r hr
  exact ⟨r', hr', ha'.trans ha⟩

theorem FromSource.grows (h : FromSource T f source) (hg : Grows T T') : FromSource T' f source := by
  intro m hm
  obtain ⟨row, hrow, hsrc⟩ := h m hm
  obtain ⟨row', hrow', ha, hs, -⟩ := hg.memories m row hrow
  exact ⟨row', hrow', fun he => hs.trans (hsrc (ha.symm.trans he))⟩

theorem LockedSource.kept (h : LockedSource T t f source) (hk : Kept t T T') : LockedSource T' t f source :=
  fun s hs => hk.sessions s _ (h s hs)

theorem TombstoneWritten.kept (h : TombstoneWritten T t x f source) (hk : Kept t T T') :
    TombstoneWritten T' t x f source := by
  obtain ⟨m, row, new, hm, hold, hrest⟩ := h
  exact ⟨m, row, new, hm, hk.memories m _ hold, hrest⟩

theorem SourceAdvanced.kept (h : SourceAdvanced T t x source) (hk : Kept t T T') : SourceAdvanced T' t x source :=
  fun s hs => hk.sessions s _ (h s hs)

theorem StageInv.kept {stage : Stage} (h : StageInv T t x stage) (hk : Kept t T T') : StageInv T' t x stage := by
  cases stage with
  | writePersist | writeSupersede | writeCommit => exact fun s hs => hk.sessions s _ (h s hs)
  | forgetLock | forgetSource =>
    intro m hm
    obtain ⟨row, hrow⟩ := h m hm
    obtain ⟨row', hrow', -⟩ := hk.grows.memories m row hrow
    exact ⟨row', hrow'⟩
  | forgetSession f s => exact FromSource.grows h hk.grows
  | forgetTarget | forgetTombstone => exact ⟨h.1.grows hk.grows, h.2.kept hk⟩
  | forgetAdvance f source => exact ⟨h.1.kept hk, h.2.kept hk⟩
  | forgetCommit f =>
    obtain ⟨source, hw, ha⟩ := h
    exact ⟨source, hw.kept hk, ha.kept hk⟩
  | idle | writeLock _ | writeFence _ | piiLock _ | piiUpdate _ | updateRow _ _ | updateCommit | done => trivial

theorem TxnInv.kept (h : TxnInv T t x) (hk : Kept t T T') : TxnInv T' t x :=
  ⟨fun s row hl => hk.sessions s _ (h.sessions s row hl), fun m row hl => hk.memories m _ (h.memories m row hl),
    fun m row hl => (h.sourced m row hl).grows hk.grows, h.stage.kept hk⟩

theorem TxnInv.of_stage {stage : Stage} (h : TxnInv T t x) (hs : x.stage = stage) : StageInv T t x stage := hs ▸ h.stage

theorem TxnInv.nil {stage : Stage} (h : StageInv T t ⟨stage, [], []⟩ stage) : TxnInv T t ⟨stage, [], []⟩ :=
  ⟨.nil, .nil, fun _ _ => nofun, h⟩

end Frame

end

/-! One lemma for each kind of move (a stage, a lock, a write, a rollback, a commit), then one for each statement. -/

section

open Lib Option Function RowStore

variable {T₀ T : Tables} {w w' : World} {t t' : Nat} {x : Txn}

variable {s : Uuid} {m : Nat} {stage : Stage}

theorem Kept.of_acquire_session {S : RowStore Uuid (Option SessionRow) Nat}
    (h : T.sessions.acquire t' s = some S) : Kept t T { T with sessions := S } :=
  ⟨fun _ _ hold => hold.acquire h, fun _ _ hold => hold, .of_rows (rows_of_acquire h) rfl Nat.le.refl⟩

theorem Kept.of_acquire_memory {M : RowStore Nat (Option MemoryRow) Nat}
    (h : T.memories.acquire t' m = some M) : Kept t T { T with memories := M } :=
  ⟨fun _ _ hold => hold, fun _ _ hold => hold.acquire h, .of_rows rfl (rows_of_acquire h) Nat.le.refl⟩

theorem Kept.rollback (hne : t ≠ t') :
    Kept t T { T with sessions := T.sessions.rollback t', memories := T.memories.rollback t' } :=
  ⟨fun _ _ hold => hold.rollback hne, fun _ _ hold => hold.rollback hne, .of_rows rfl rfl Nat.le.refl⟩

def Tables.commit (T : Tables) (t : Nat) (x : Txn) : Tables :=
  { T with sessions := T.sessions.commitAll t x.sessions, memories := T.memories.commitAll t x.memories }

theorem TxnInv.grows (h : TxnInv T t x) : Grows T (T.commit t x) := by
  refine ⟨?_, ?_, Nat.le.refl⟩
  · intro s r hr
    rcases h.sessions.rows s with heq | ⟨r₀, h₀, r', h', ha, hle⟩
    · exact ⟨r, heq.trans hr, rfl, le_rfl⟩
    · obtain rfl := some.inj (h₀.symm.trans hr)
      exact ⟨r', h', ha, hle⟩
  · intro m r hr
    rcases h.memories.rows m with heq | ⟨r', h', hold⟩
    · exact ⟨r, heq.trans hr, rfl, rfl, le_rfl, fun _ => rfl⟩
    · obtain ⟨ht, ha, hs, hle⟩ := hold r hr
      exact ⟨r', h', ha, hs, hle, fun htrue => absurd (ht.symm.trans htrue) nofun⟩

theorem TxnInv.keeps (h : TxnInv T t' x) (hne : t ≠ t') : Kept t T (T.commit t' x) :=
  ⟨fun _ _ hold => hold.commitAll hne h.sessions, fun _ _ hold => hold.commitAll hne h.memories, h.grows⟩

section

variable (h : Inv T₀ w)
include h

theorem Inv.change (hk : ∀ t', t' ≠ t → Kept t' w.toTables w'.toTables)
    (htx : ∀ t', t' ≠ t → w'.txns t' = w.txns t') (hx : TxnInv w'.toTables t (w'.txns t))
    (hm : ∀ m row, w'.memories.rows m = some row → Sourced w'.toTables m row) : Inv T₀ w' := by
  refine ⟨h.since.trans (hk (t + 1) (Nat.succ_ne_self t)).grows, hm, fun t' => ?_⟩
  by_cases ht : t' = t
  · exact ht ▸ hx
  · exact htx t' ht ▸ (h.txns t').kept (hk t' ht)

theorem Inv.setTxn (hx : TxnInv w.toTables t x) : Inv T₀ { w with txns := Function.update w.txns t x } :=
  h.change (fun _ _ => ⟨fun _ _ => id, fun _ _ => id, .of_rows rfl rfl Nat.le.refl⟩)
    (fun _ ht => update_of_ne ht ..) (by simpa using hx) h.sourced

theorem Inv.setStage (hs : StageInv w.toTables t (w.txns t) stage) : Inv T₀ (w.setStage t stage) :=
  have htx := h.txns t
  h.setTxn ⟨htx.sessions, htx.memories, htx.sourced, by cases stage <;> exact hs⟩

theorem Inv.kept (hk : ∀ t, Kept t w.toTables w'.toTables) (htx : w'.txns = w.txns)
    (hm : w'.memories.rows = w.memories.rows) : Inv T₀ w' :=
  ⟨h.since.trans (hk 0).grows, fun m row hrow => (h.sourced m row (hm ▸ hrow)).grows (hk 0).grows,
    fun t => htx ▸ (h.txns t).kept (hk t)⟩

theorem Inv.lockSession (hl : w.lockSession t s = some w') :
    ∃ S, w' = { w with sessions := S } ∧ Inv T₀ w' ∧ S.rows = w.sessions.rows ∧ S.lock s = some t := by
  obtain ⟨S, hS, rfl⟩ := map_eq_some_iff.mp hl
  exact ⟨S, rfl, h.kept (fun t => Kept.of_acquire_session hS) rfl rfl, rows_of_acquire hS,
    lock_of_acquire hS⟩

theorem Inv.lockMemory (hl : w.lockMemory t m = some w') :
    ∃ M, w' = { w with memories := M } ∧ Inv T₀ w' ∧ M.rows = w.memories.rows ∧ M.lock m = some t := by
  obtain ⟨M, hM, rfl⟩ := map_eq_some_iff.mp hl
  exact ⟨M, rfl, h.kept (fun t => Kept.of_acquire_memory hM) rfl (rows_of_acquire hM),
    rows_of_acquire hM, lock_of_acquire hM⟩

theorem Inv.writeSession {row : SessionRow} (hold : w.sessions.Holds t s (SessionEvolves · (some row)))
    (hs : StageInv w.toTables t { w.txns t with stage, sessions := (s, some row) :: (w.txns t).sessions } stage) :
    Inv T₀ (w.writeSession t s row stage) :=
  have htx := h.txns t
  h.setTxn ⟨htx.sessions.cons hold, htx.memories, htx.sourced, hs⟩

theorem Inv.writeMemory {row : MemoryRow}
    (hold : w.memories.Holds t m (MemoryEvolves · (some row))) (hsrc : Sourced w.toTables m row)
    (hs : StageInv w.toTables t { w.txns t with stage, memories := (m, some row) :: (w.txns t).memories } stage) :
    Inv T₀ (w.writeMemory t m row stage) := by
  have htx := h.txns t
  refine h.setTxn ⟨htx.sessions, htx.memories.cons hold, fun m' row' hl => ?_, hs⟩
  rw [List.lookup_cons] at hl
  by_cases hm : m' = m
  · subst hm
    simp only [beq_self_eq_true, some.injEq] at hl
    exact hl ▸ hsrc
  · simp only [beq_eq_false_iff_ne.mpr hm] at hl
    exact htx.sourced m' row' hl

theorem Inv.rollback : Inv T₀ (w.rollback t) :=
  h.change (t := t) (fun _ ht => .rollback ht) (fun _ ht => update_of_ne ht ..)
    (by simpa [World.rollback] using (TxnInv.nil trivial : TxnInv _ t ⟨.done, [], []⟩))
    fun m row hrow => (h.sourced m row hrow).grows (.of_rows rfl rfl Nat.le.refl)

theorem Inv.commit : Inv T₀ (w.commit t) := by
  have htx := h.txns t
  refine h.change (t := t) (fun _ ht => htx.keeps ht) (fun _ ht => update_of_ne ht ..)
    (by simpa [World.commit] using (TxnInv.nil trivial : TxnInv _ t ⟨.done, [], []⟩)) fun m row hrow => ?_
  refine Sourced.grows ?_ htx.grows
  cases hl : (w.txns t).memories.lookup m with
  | none => exact h.sourced m row (by simpa [World.commit, RowStore.commitAll, RowStore.rollback, hl] using hrow)
  | some row' =>
    obtain rfl : row' = some row := by simpa [World.commit, RowStore.commitAll, RowStore.rollback, hl] using hrow
    exact htx.sourced m row hl

theorem Inv.requireExtractionSession {c : Command} (hw : w.requireExtractionSession t c = some w') : Inv T₀ w' := by
  unfold World.requireExtractionSession at hw
  split at hw
  case h_1 hs he =>
    cases hw
    exact h.setStage fun s hs' => absurd (hs.symm.trans hs') nofun
  case h_2 | h_3 => exact some.inj hw ▸ h.rollback
  case h_4 s expected hs he =>
    split_ifs at hw
    · exact some.inj hw ▸ h.rollback
    · split at hw
      · exact some.inj hw ▸ h.rollback
      · rename_i row hrow
        obtain ⟨_, hl, rfl⟩ := map_eq_some_iff.mp hw
        obtain ⟨S, rfl, hinv, hrows, hlock⟩ := h.lockSession hl
        split_ifs with hmatch
        · refine hinv.setStage fun s' hs' => ?_
          obtain rfl := some.inj (hs.symm.trans hs')
          simp only [World.matchesSessionFence, Bool.and_eq_true, decide_eq_true_eq] at hmatch
          exact ⟨hlock, row, (congrFun hrows s).trans hrow, hmatch.1.1.1, hmatch.2 ▸ he⟩
        · exact hinv.rollback

theorem Inv.insertMemory {c : Command} {status : MemoryStatus} {next : Stage}
    (hfence : Fenced w.toTables t c) (hnext : ∀ T x, Fenced T t c → StageInv T t x next)
    (hw : w.insertMemory t c status next = some w') : Inv T₀ w' := by
  obtain ⟨_, hl, rfl⟩ := map_eq_some_iff.mp hw
  obtain ⟨M, rfl, hinv, hrows, hlock⟩ := h.lockMemory hl
  have hfree : w.memories.rows w.nextMemoryID = none :=
    eq_none_iff_forall_ne_some.mpr fun row hrow => Nat.lt_irrefl _ (h.sourced _ row hrow).1
  have hbump : Inv T₀ { w with memories := M, nextMemoryID := w.nextMemoryID + 1 } :=
    hinv.kept (fun _ => ⟨fun _ _ => id, fun _ _ => id, .of_rows rfl rfl (Nat.le_succ _)⟩) rfl rfl
  refine hbump.writeMemory ⟨hlock, _, rfl, fun r hr => ?_⟩ ⟨Nat.lt_succ_self _, fun s hs => ?_⟩ (hnext _ _ hfence)
  · exact absurd ((hrows ▸ hfree).symm.trans hr) nofun
  · obtain ⟨-, r, hr, ha, -⟩ := hfence s hs
    exact ⟨r, hr, ha⟩

theorem Inv.memory_eq {old : MemoryRow} (hm : w.memory t m = some old) : Sourced w.toTables m old ∧
      (w.memories.rows m = some old ∨ MemoryEvolves (w.memories.rows m) (some old)) := by
  unfold World.memory at hm
  cases hl : (w.txns t).memories.lookup m with
  | none =>
    have hrow : w.memories.rows m = some old := by simpa [hl] using hm
    exact ⟨h.sourced m old hrow, .inl hrow⟩
  | some row =>
    obtain rfl : row = some old := by simpa [hl] using hm
    exact ⟨(h.txns t).sourced m old hl, .inr ((h.txns t).memories m _ hl).2⟩

theorem Inv.updateMemory {meets : MemoryRow → Bool} {new : MemoryRow → MemoryRow}
    {content : Bool} {next : Stage} (hw : w.updateMemory t m meets new content next = some w')
    (hmeets : ∀ old, meets old = true → old.tombstoned = false)
    (hagent : ∀ old, (new old).agentID = old.agentID) (hsession : ∀ old, (new old).sessionID = old.sessionID)
    (hnext : ∀ M old row, M.rows = w.memories.rows → M.lock m = some t → w.memory t m = some old → meets old = true →
      bumpMemoryLifecycleRevision old (new old) content = some row →
      StageInv { w.toTables with memories := M } t
        { w.txns t with stage := next, memories := (m, some row) :: (w.txns t).memories } next) : Inv T₀ w' := by
  unfold World.updateMemory at hw
  split at hw
  case h_1 => exact some.inj hw ▸ h.rollback
  case h_2 old hold =>
    split_ifs at hw with hmeet
    · split at hw
      case h_1 => exact some.inj hw ▸ h.rollback
      case h_2 row hbump =>
        obtain ⟨_, hl, rfl⟩ := map_eq_some_iff.mp hw
        obtain ⟨M, rfl, hinv, hrows, hlock⟩ := h.lockMemory hl
        obtain ⟨hrow, hle, -⟩ := bumpMemory_eq hbump
        obtain ⟨hsrc, hcommitted⟩ := h.memory_eq hold
        have hag : row.agentID = old.agentID := by rw [hrow]; exact hagent old
        have hse : row.sessionID = old.sessionID := by rw [hrow]; exact hsession old
        refine hinv.writeMemory ⟨hlock, row, rfl, fun r hr => ?_⟩ ⟨hsrc.1, fun s hs => ?_⟩
          (hnext M old row hrows hlock hold hmeet hbump)
        · rw [hrows] at hr
          rcases hcommitted with heq | ⟨r', heq, hev⟩
          · obtain rfl := some.inj (heq.symm.trans hr)
            exact ⟨hmeets _ hmeet, hag, hse, hle⟩
          · cases heq
            obtain ⟨ht, ha, hs, hl⟩ := hev r hr
            exact ⟨ht, hag.trans ha, hse.trans hs, Int.le_trans hl hle⟩
        · obtain ⟨r, hr, ha⟩ := hsrc.2 s (hse ▸ hs)
          exact ⟨r, hr, ha.trans hag.symm⟩
    · exact some.inj hw ▸ h.rollback

end

section Forget

variable {f : ForgetMemory} {source : Option Uuid} {s : Uuid}

section

variable (h : Inv T₀ w)
include h

theorem Inv.memorySourceSession (hstage : (w.txns t).stage = .forgetSource f) :
    Inv T₀ (w.memorySourceSession t f) := by
  have hknown : ∀ m, f.memoryID = some m → ∃ row, w.memories.rows m = some row :=
    (h.txns t).of_stage hstage
  unfold World.memorySourceSession
  split
  case h_1 hnone =>
    refine h.setStage ⟨fun m hm => ?_, fun _ => nofun⟩
    obtain ⟨row, hrow⟩ := hknown m hm
    simp [hm, hrow] at hnone
  case h_2 row hsome =>
    obtain ⟨m, hm, hrow⟩ := bind_eq_some_iff.mp hsome
    have hfrom : ∀ {source : Option Uuid}, (row.agentID = f.agentID → row.sessionID = source) →
        FromSource w.toTables f source := by
      intro source hs m' hm'
      obtain rfl := some.inj (hm.symm.trans hm')
      exact ⟨row, hrow, hs⟩
    split_ifs with hagent
    · cases hs : row.sessionID with
      | none => exact h.setStage ⟨hfrom fun _ => hs, fun _ => nofun⟩
      | some s => exact h.setStage (hfrom fun _ => hs)
    · exact h.setStage ⟨hfrom fun he => absurd he hagent, fun _ => nofun⟩

theorem Inv.fromSource_none (hfrom : FromSource w.toTables f (some s))
    (hs : ∀ r, w.sessions.rows s = some r → r.agentID ≠ f.agentID) : FromSource w.toTables f none := by
  intro m hm
  obtain ⟨row, hrow, hsrc⟩ := hfrom m hm
  refine ⟨row, hrow, fun ha => ?_⟩
  obtain ⟨r, hr, hra⟩ := (h.sourced m row hrow).2 s (hsrc ha)
  exact absurd (hra.trans ha) (hs r hr)

theorem Inv.lockSourceSession (hstage : (w.txns t).stage = .forgetSession f s)
    (hw : w.lockSourceSession t f s = some w') : Inv T₀ w' := by
  have hfrom : FromSource w.toTables f (some s) := (h.txns t).of_stage hstage
  unfold World.lockSourceSession at hw
  split at hw
  case h_1 hnone =>
    cases hw
    exact h.setStage ⟨h.fromSource_none hfrom fun r hr => absurd (hnone.symm.trans hr) nofun, fun _ => nofun⟩
  case h_2 row hrow =>
    split_ifs at hw with hagent
    · obtain ⟨_, hl, rfl⟩ := map_eq_some_iff.mp hw
      obtain ⟨S, rfl, hinv, hrows, hlock⟩ := h.lockSession hl
      refine hinv.setStage ⟨hfrom, fun s' hs' => ?_⟩
      cases hs'
      exact ⟨hlock, row, (congrFun hrows s).trans hrow, hagent⟩
    · cases hw
      refine h.setStage ⟨h.fromSource_none hfrom fun r hr => ?_, fun _ => nofun⟩
      exact some.inj (hrow.symm.trans hr) ▸ hagent

theorem Inv.requireForgetTarget (hstage : (w.txns t).stage = .forgetTarget f source)
    (hw : w.requireForgetTarget t f source = some w') : Inv T₀ w' := by
  unfold World.requireForgetTarget at hw
  split at hw
  · exact some.inj hw ▸ h.rollback
  · split at hw
    · exact some.inj hw ▸ h.rollback
    · split at hw
      · obtain ⟨_, hl, rfl⟩ := map_eq_some_iff.mp hw
        obtain ⟨M, rfl, hinv, -⟩ := h.lockMemory hl
        split
        · exact hinv.rollback
        · exact hinv.setStage ((hinv.txns t).of_stage hstage : StageInv _ t _ (.forgetTarget f source))
      · exact some.inj hw ▸ h.rollback

theorem Inv.tombstoneMemory (hstage : (w.txns t).stage = .forgetTombstone f source)
    (hw : w.tombstoneMemory t f source = some w') : Inv T₀ w' := by
  obtain ⟨hfrom, hlocked⟩ : FromSource w.toTables f source ∧ LockedSource w.toTables t f source :=
    (h.txns t).of_stage hstage
  unfold World.tombstoneMemory at hw
  split at hw
  · exact some.inj hw ▸ h.rollback
  · rename_i m hm
    refine h.updateMemory hw (fun old ho => ?_) (fun _ => rfl) (fun _ => rfl)
      (fun M old row hrows hlock hold ho hb => ?_)
    · simp only [Bool.and_eq_true, Bool.not_eq_true'] at ho
      exact ho.2
    · simp only [Bool.and_eq_true, Bool.not_eq_true', decide_eq_true_eq] at ho
      obtain ⟨hrow, -, hlt⟩ := bumpMemory_eq hb
      obtain ⟨committed, hc, hsource⟩ := hfrom m hm
      have hlt := hlt (by simp [ho.2])
      have hbase : committed.agentID = old.agentID ∧ committed.lifecycleRevision ≤ old.lifecycleRevision := by
        rcases (h.memory_eq hold).2 with heq | ⟨r', heq, hev⟩
        · obtain rfl := some.inj (heq.symm.trans hc)
          exact ⟨rfl, le_rfl⟩
        · cases heq
          obtain ⟨-, ha, -, hle⟩ := hev committed hc
          exact ⟨ha.symm, hle⟩
      exact ⟨hlocked, m, committed, row, hm, ⟨hlock, (congrFun hrows m).trans hc⟩, hsource (hbase.1.trans ho.1.1),
        by simp, Int.lt_of_le_of_lt hbase.2 hlt, by rw [hrow], by rw [hrow]⟩

theorem Inv.advanceSourceSession (hstage : (w.txns t).stage = .forgetAdvance f source) :
    Inv T₀ (w.advanceSourceSession t f source) := by
  obtain ⟨hlocked, hwritten⟩ : LockedSource w.toTables t f source ∧
    TombstoneWritten w.toTables t (w.txns t) f source := (h.txns t).of_stage hstage
  cases source with
  | none => exact h.setStage ⟨none, hwritten, fun _ => nofun⟩
  | some s =>
    obtain ⟨hlock, r, hr, hagent⟩ := hlocked s rfl
    simp only [World.advanceSourceSession, hr]
    rw [if_pos hagent]
    have hlt : r.lifecycleRevision < (bumpSessionLifecycleRevision r
        { r with lifecycleRevision := r.lifecycleRevision + 1 }).lifecycleRevision :=
      revision_lt_bumpSession (Int.ne_of_gt (Int.lt_succ _))
    refine h.writeSession ⟨hlock, r, hr, _, rfl, agentID_bumpSession .., Int.le_of_lt hlt⟩
      ⟨some s, hwritten, fun s' hs' => ?_⟩
    cases hs'
    exact ⟨hlock, r, hr, _, by simp, hlt⟩

end

end Forget

theorem Inv.updateSession (h : Inv T₀ w) {u : SessionUpdate} (hw : w.updateSession t s u = some w') : Inv T₀ w' := by
  unfold World.updateSession at hw
  split at hw
  · exact some.inj hw ▸ h.setStage trivial
  · rename_i old hold
    obtain ⟨_, hl, rfl⟩ := map_eq_some_iff.mp hw
    obtain ⟨S, rfl, hinv, hrows, hlock⟩ := h.lockSession hl
    exact hinv.writeSession ⟨hlock, old, (congrFun hrows s).trans hold, _, rfl, agentID_bumpSession ..,
      revision_le_bumpSession ..⟩ trivial

theorem Inv.advance (h : Inv T₀ w) (hw : w.advance t = some w') : Inv T₀ w' := by
  have hold := (h.txns t).stage
  unfold World.advance at hw
  cases hstage : (w.txns t).stage with
  | idle | done => simp [hstage] at hw
  | writeLock | piiLock =>
    simp only [hstage, some.injEq] at hw
    subst hw
    split_ifs
    exacts [h.setStage trivial, h.rollback]
  | writeFence c =>
    simp only [hstage] at hw
    exact h.requireExtractionSession hw
  | writePersist c =>
    simp only [hstage] at hw hold
    cases hp : c.persist with
    | quarantine | active =>
      simp only [hp] at hw
      exact h.insertMemory hold (fun _ _ => id) hw
    | duplicate existing =>
      simp only [hp] at hw
      refine h.updateMemory hw (fun old ho => ?_) (fun _ => rfl) (fun _ => rfl) (fun _ _ _ _ _ _ _ _ => hold)
      simp only [Bool.and_eq_true, Bool.not_eq_true'] at ho
      exact ho.2
  | writeSupersede c m targets =>
    simp only [hstage] at hw hold
    match targets, hw with
    | [], hw => exact some.inj hw ▸ h.setStage hold
    | (_, none) :: _, hw => exact some.inj hw ▸ h.rollback
    | (target, some expected) :: rest, hw =>
      refine h.updateMemory hw (fun old ho => ?_) (fun _ => rfl) (fun _ => rfl) (fun _ _ _ _ _ _ _ _ => hold)
      simp only [Bool.and_eq_true, Bool.not_eq_true'] at ho
      exact ho.1.2
  | writeCommit | forgetCommit | updateCommit =>
    simp only [hstage, some.injEq] at hw
    exact hw ▸ h.commit
  | forgetLock f =>
    simp only [hstage, some.injEq] at hw hold
    subst hw
    split_ifs
    exacts [h.setStage hold, h.rollback]
  | forgetSource f =>
    simp only [hstage, some.injEq] at hw
    exact hw ▸ h.memorySourceSession hstage
  | forgetSession f s =>
    simp only [hstage] at hw
    exact h.lockSourceSession hstage hw
  | forgetTarget f source =>
    simp only [hstage] at hw
    exact h.requireForgetTarget hstage hw
  | forgetTombstone f source =>
    simp only [hstage] at hw
    exact h.tombstoneMemory hstage hw
  | forgetAdvance f source =>
    simp only [hstage, some.injEq] at hw
    exact hw ▸ h.advanceSourceSession hstage
  | piiUpdate u =>
    simp only [hstage] at hw
    refine h.updateMemory hw (fun old ho => ?_) (fun _ => rfl) (fun _ => rfl) (fun _ _ _ _ _ _ _ _ => trivial)
    simp only [Bool.and_eq_true, Bool.not_eq_true'] at ho
    exact ho.1.2
  | updateRow s u =>
    simp only [hstage] at hw
    exact h.updateSession hw

theorem Kept.createSession {row : SessionRow} (hs : T.sessions.rows s = none) :
    Kept t T { T with sessions := { T.sessions with rows := Function.update T.sessions.rows s (some row) } } := by
  have hother : ∀ s' r, T.sessions.rows s' = some r → update T.sessions.rows s (some row) s' = some r := by
    intro s' r hr
    have hne : s' ≠ s := by
      rintro rfl
      exact absurd (hs.symm.trans hr) nofun
    rw [update_of_ne hne, hr]
  refine ⟨fun s' P hold => ?_, fun _ _ => id, fun s' r hr => ⟨r, hother s' r hr, rfl, le_rfl⟩,
    fun m r hr => ⟨r, hr, rfl, rfl, le_rfl, fun _ => rfl⟩, Nat.le.refl⟩
  obtain ⟨hlock, r, hr, hp⟩ := hold
  exact ⟨hlock, r, hother s' r hr, hp⟩

theorem Inv.step (h : Inv T₀ w) {a : Action} (hw : w.step a = some w') : Inv T₀ w' := by
  cases a with
  | write | pii | update =>
    simp only [World.step, ite_none_right_eq_some, some.injEq] at hw
    exact hw.2 ▸ h.setStage trivial
  | forget t f =>
    simp only [World.step, ite_none_right_eq_some, some.injEq, Bool.and_eq_true] at hw
    obtain ⟨⟨-, hknown⟩, rfl⟩ := hw
    refine h.setStage fun m hm => ?_
    exact isSome_iff_exists.mp (by simpa [hm] using hknown)
  | advance t => exact h.advance hw
  | abort t =>
    simp only [World.step, ite_none_left_eq_some, some.injEq] at hw
    exact hw.2 ▸ h.rollback
  | createSession s agentID =>
    simp only [World.step] at hw
    split at hw
    · cases hw
    · rename_i hnone
      cases hw
      exact h.kept (fun _ => .createSession hnone) rfl rfl
  | setOrganization available =>
    cases hw
    exact h.kept (fun _ => ⟨fun _ _ => id, fun _ _ => id, .of_rows rfl rfl Nat.le.refl⟩) rfl rfl

theorem inv_of_reachable (hr : machine.Reachable w) : Inv w.toTables w := by
  have hinv : ∃ T₀, Inv T₀ w := by
    refine hr.invariant (P := fun w => ∃ T₀, Inv T₀ w) (fun w hinit => ?_) ?_
    · obtain ⟨hidle, -, -, hsourced⟩ := hinit
      exact ⟨w.toTables, .of_rows rfl rfl Nat.le.refl, hsourced, fun t => hidle t ▸ TxnInv.nil trivial⟩
    · rintro w a w' ⟨T₀, h⟩ hw
      exact ⟨T₀, h.step hw⟩
  obtain ⟨T₀, h⟩ := hinv
  exact ⟨.of_rows rfl rfl Nat.le.refl, h.sourced, h.txns⟩

theorem inv_of_later (hr : machine.Reachable w) (hl : machine.Later w w') : Inv w.toTables w' :=
  hl.stable (P := Inv w.toTables) (fun _ _ _ h hw => h.step hw) (inv_of_reachable hr)

end

/-! An extraction that was queued before a memory was forgotten writes no memory after it. -/

open Lib Option

variable {w w' : World} {t : Nat}

def Writes (w : World) (t : Nat) (c : Command) (w' : World) : Prop :=
  (w.txns t).stage = .writeCommit c ∧ machine.step w (.advance t) = some w'

def Forgets (w : World) (t : Nat) (f : ForgetMemory) (w' : World) : Prop :=
  (w.txns t).stage = .forgetCommit f ∧ machine.step w (.advance t) = some w'

theorem Forgets.eq_commit {f : ForgetMemory} (h : Forgets w t f w') : w' = w.commit t := by
  obtain ⟨hstage, hw⟩ := h
  simpa [machine, World.step, World.advance, hstage] using hw.symm

/-- The memory gets its tombstone and a new revision, and so does the revision of its session. -/
theorem Forgets.rows {T₀ : Tables} (hinv : Inv T₀ w) {f : ForgetMemory} (h : Forgets w t f w') :
    ∃ m row row', f.memoryID = some m ∧ w.memories.rows m = some row ∧ w'.memories.rows m = some row' ∧
      row.lifecycleRevision < row'.lifecycleRevision ∧ row'.status = .deleted ∧ row'.tombstoned = true ∧
      ∀ s, row.sessionID = some s → ∃ r r', w.sessions.rows s = some r ∧ w'.sessions.rows s = some r' ∧
        r.lifecycleRevision < r'.lifecycleRevision := by
  obtain ⟨source, ⟨m, row, row', hm, hold, hsource, hnew, hlt, hrest⟩, hadvanced⟩ :
    ∃ source, TombstoneWritten w.toTables t (w.txns t) f source ∧ SourceAdvanced w.toTables t (w.txns t) source :=
    (hinv.txns t).of_stage h.1
  obtain rfl := h.eq_commit
  refine ⟨m, row, row', hm, hold.2, ?_, hlt, hrest.1, hrest.2, fun s hs => ?_⟩
  · simp [World.commit, RowStore.commitAll, RowStore.rollback, hnew]
  · obtain ⟨-, r, hr, r', hr', hlt'⟩ := hadvanced s (hsource.symm.trans hs)
    exact ⟨r, r', hr, by simp [World.commit, RowStore.commitAll, RowStore.rollback, hr'], hlt'⟩

/-- A write that commits has locked its session at the revision it carries. -/
theorem Writes.revision {T₀ : Tables} (hinv : Inv T₀ w) {c : Command} (h : Writes w t c w') {s : Uuid}
    (hs : c.sessionID = some s) :
    ∃ r, w.sessions.rows s = some r ∧ c.expectedSessionRevision = some r.lifecycleRevision := by
  have hfenced : Fenced w.toTables t c := (hinv.txns t).of_stage h.1
  obtain ⟨-, r, hr, -, hrev⟩ := hfenced s hs
  exact ⟨r, hr, hrev⟩

/-- Revisions never go back and a tombstone stays as it is; a forget leaves a tombstone and raises the revision of the
session, so that no extraction that read it before can write after it. -/
theorem forgotten_not_resurrected {w₀ : World} (hr : machine.Reachable w₀) (hl : machine.Later w₀ w) :
    (∀ s r, w₀.sessions.rows s = some r →
      ∃ r', w.sessions.rows s = some r' ∧ r.lifecycleRevision ≤ r'.lifecycleRevision) ∧
    (∀ m r, w₀.memories.rows m = some r →
      ∃ r', w.memories.rows m = some r' ∧ r.lifecycleRevision ≤ r'.lifecycleRevision ∧ (r.tombstoned = true → r' = r)) ∧
    ∀ t f w', Forgets w t f w' →
      ∃ m row row', f.memoryID = some m ∧ w.memories.rows m = some row ∧ w'.memories.rows m = some row' ∧
        row.lifecycleRevision < row'.lifecycleRevision ∧ row'.status = .deleted ∧ row'.tombstoned = true ∧
        ∀ s, row.sessionID = some s → (∃ r r', w.sessions.rows s = some r ∧ w'.sessions.rows s = some r' ∧
            r.lifecycleRevision < r'.lifecycleRevision) ∧
          -- a revision that was read before the forget
          ∀ r₀, w₀.sessions.rows s = some r₀ → ∀ w₁ w₂ t' c, machine.Later w' w₁ → c.sessionID = some s →
            c.expectedSessionRevision = some r₀.lifecycleRevision → ¬Writes w₁ t' c w₂ := by
  have hinv := inv_of_later hr hl
  refine ⟨fun s r h => ?_, fun m r h => ?_, fun t f w' hf => ?_⟩
  · obtain ⟨r', hr', -, hle⟩ := hinv.since.sessions s r h
    exact ⟨r', hr', hle⟩
  · obtain ⟨r', hr', -, -, hle, hterm⟩ := hinv.since.memories m r h
    exact ⟨r', hr', hle, hterm⟩
  · obtain ⟨m, row, row', hm, hrow, hrow', hlt, hstatus, htomb, hsource⟩ := hf.rows hinv
    refine ⟨m, row, row', hm, hrow, hrow', hlt, hstatus, htomb, fun s hs => ⟨hsource s hs, ?_⟩⟩
    intro r₀ hr₀ w₁ w₂ t' c hlater hc hexpected hwrites
    obtain ⟨r, r', h, h', hadvanced⟩ := hsource s hs
    obtain ⟨r₁, h₁, -, hle₁⟩ := hinv.since.sessions s r₀ hr₀
    obtain rfl := some.inj (h₁.symm.trans h)
    -- the revision was passed by the forget and does not come back
    have hinv' := inv_of_later ((hr.later hl).step hf.2) hlater
    obtain ⟨r₂, h₂, -, hle₂⟩ := hinv'.since.sessions s r' h'
    obtain ⟨r₃, h₃, hrev⟩ := hwrites.revision hinv' hc
    obtain rfl := some.inj (h₂.symm.trans h₃)
    have heq := some.inj (hexpected.symm.trans hrev)
    omega

/-! ## A sample run -/

def emptyWorld : World :=
  ⟨⟨⟨fun _ => none, fun _ => none⟩, ⟨fun _ => none, fun _ => none⟩, 0⟩, true, fun _ => ⟨.idle, [], []⟩⟩

/-- The session 1 of the agent 5 completes, and one memory is extracted from it. -/
def extraction : List Action :=
  [.createSession 1 5, .update 0 1 ⟨some .completed, none, none⟩, .advance 0, .advance 0,
    .write 1 ⟨5, some 1, some 2, .active []⟩, .advance 1, .advance 1, .advance 1, .advance 1, .advance 1]

def forgetting : List Action :=
  [.forget 2 ⟨5, some 0, 1⟩, .advance 2, .advance 2, .advance 2, .advance 2, .advance 2, .advance 2]

def extractedWorld : World := (machine.run emptyWorld extraction).get (by decide)

def forgettingWorld : World := (machine.run extractedWorld forgetting).get (by decide)

theorem forgotten_not_resurrected_sample :
    ∃ w', Forgets forgettingWorld 2 ⟨5, some 0, 1⟩ w' ∧
      (∃ row', w'.memories.rows 0 = some row' ∧ row'.tombstoned = true) ∧
      ∀ w₁ w₂ t' c, machine.Later w' w₁ → c.sessionID = some 1 → c.expectedSessionRevision = some 2 →
        ¬Writes w₁ t' c w₂ := by
  have hr : machine.Reachable extractedWorld :=
    ⟨emptyWorld, ⟨fun _ => rfl, fun _ => rfl, fun _ => rfl, fun _ _ => nofun⟩, extraction, (some_get _).symm⟩
  have hl : machine.Later extractedWorld forgettingWorld := ⟨forgetting, (some_get _).symm⟩
  obtain ⟨w', hw'⟩ : ∃ w', machine.step forgettingWorld (.advance 2) = some w' := ⟨_, rfl⟩
  have hf : Forgets forgettingWorld 2 ⟨5, some 0, 1⟩ w' := ⟨by decide, hw'⟩
  obtain ⟨m, row, row', hm, hrow, hrow', -, -, htomb, hsource⟩ := (forgotten_not_resurrected hr hl).2.2 2 _ w' hf
  cases hm
  have hsession : row.sessionID = some 1 := by
    obtain rfl : row = ⟨5, some 1, .active, none, false, false, 1⟩ := some.inj (hrow.symm.trans (by decide))
    rfl
  refine ⟨w', hf, ⟨row', hrow', htomb⟩, fun w₁ w₂ t' c hlater hc hexpected => ?_⟩
  exact (hsource 1 hsession).2 ⟨5, .completed, false, 2⟩ (by decide) w₁ w₂ t' c hlater hc hexpected

end IbexHarness.Memory
