import IbexHarness.Lib.Liveness
import IbexHarness.OrgDeletion.Lemmas.Ownership

/-! A transaction that has the advisory lock is at work, and each of its steps brings it nearer to its end. -/

namespace IbexHarness.OrgDeletion

open Lib Function Option World SharedLock

variable {S : Settings} {w w' : World} {t : Nat} {T : Task} {o : Owner}

/-! ## Who changes a task -/

variable {a : Action} {W : Tables} {st : Statement} {next : TaskStage} {i : Nat}

theorem update_eq_or_eq {β : Type*} (f : Nat → β) (i : Nat) (x : β) (u : Nat) : update f i x u = f u ∨ i = u := by
  by_cases hu : u = i
  · exact .inr hu.symm
  · exact .inl (update_of_ne hu _ _)

theorem tasks_step (hs : w.step S a = some w') (u : Nat) :
    w'.tasks u = w.tasks u ∨ (a = .advance u ∨ a = .error u ∨ a = .crash u) ∨ u = w.nextTask ∧ ∃ j, a = .deliver j ∧
      w'.tasks u = .start j := by
  cases a with
  | advance t =>
    obtain ⟨st, -, hs⟩ := bind_eq_some_iff.mp hs
    obtain ⟨W, rfl⟩ := exec_eq hs
    exact (update_eq_or_eq _ t _ u).imp_right fun hu => .inl (.inl (by rw [hu]))
  | error t =>
    obtain ⟨-, rfl⟩ := of_ite_some hs
    rw [raise_eq]
    exact (update_eq_or_eq _ t _ u).imp_right fun hu => .inl (.inr (.inl (by rw [hu])))
  | crash t =>
    obtain ⟨-, rfl⟩ := of_ite_some hs
    exact (update_eq_or_eq _ t _ u).imp_right fun hu => .inl (.inr (.inr (by rw [hu])))
  | deliver j =>
    obtain ⟨-, rfl⟩ := of_ite_some hs
    refine (update_eq_or_eq _ _ _ u).imp_right ?_
    rintro rfl
    exact .inr ⟨rfl, j, rfl, update_self _ _ _⟩
  | _ => exact .inl (by rw [((step_frame hs).tasks nofun).1])

theorem holds_writes_step (hs : w.step S a = some w') :
    ((w'.nextHold = w.nextHold ∧ ∀ i, w'.holds i = w.holds i ∨ a = .advanceHold i ∨ a = .abortHold i) ∨ a = .setHold) ∧
      ((w'.nextWrite = w.nextWrite ∧ ∀ i, w'.writes i = w.writes i ∨ a = .advanceWrite i ∨ a = .abortWrite i) ∨
        a = .write) := by
  have hholds : a.party ≠ .hold → (w'.nextHold = w.nextHold ∧
      ∀ i, w'.holds i = w.holds i ∨ a = .advanceHold i ∨ a = .abortHold i) ∨ a = .setHold := fun ha =>
    .inl ⟨((step_frame hs).holds ha).2, fun i => .inl (by rw [((step_frame hs).holds ha).1])⟩
  have hwrites : a.party ≠ .write → (w'.nextWrite = w.nextWrite ∧
      ∀ i, w'.writes i = w.writes i ∨ a = .advanceWrite i ∨ a = .abortWrite i) ∨ a = .write := fun ha =>
    .inl ⟨((step_frame hs).writes ha).2, fun i => .inl (by rw [((step_frame hs).writes ha).1])⟩
  cases a with
  | setHold =>
    cases hs
    exact ⟨.inr rfl, hwrites nofun⟩
  | write =>
    cases hs
    exact ⟨hholds nofun, .inr rfl⟩
  | advanceHold i =>
    obtain ⟨hold, lock, stage, rfl, -⟩ := advanceHold_eq hs
    exact ⟨.inl ⟨rfl, fun u => (update_eq_or_eq _ i _ u).imp_right fun hu => .inl (by rw [hu])⟩, hwrites nofun⟩
  | abortHold i =>
    obtain ⟨-, rfl⟩ := of_ite_none hs
    exact ⟨.inl ⟨rfl, fun u => (update_eq_or_eq _ i _ u).imp_right fun hu => .inr (by rw [hu])⟩, hwrites nofun⟩
  | advanceWrite i =>
    obtain ⟨memories, lock, stage, rfl, -⟩ := advanceWrite_eq hs
    exact ⟨hholds nofun, .inl ⟨rfl, fun u => (update_eq_or_eq _ i _ u).imp_right fun hu => .inl (by rw [hu])⟩⟩
  | abortWrite i =>
    obtain ⟨-, rfl⟩ := of_ite_some hs
    exact ⟨hholds nofun, .inl ⟨rfl, fun u => (update_eq_or_eq _ i _ u).imp_right fun hu => .inr (by rw [hu])⟩⟩
  | clearHold =>
    cases hs
    exact ⟨.inl ⟨rfl, fun _ => .inl rfl⟩, hwrites nofun⟩
  | _ => exact ⟨hholds nofun, hwrites nofun⟩

structure Fresh (w : World) : Prop where
  holds : ∀ i, w.nextHold ≤ i → w.holds i = .idle
  writes : ∀ i, w.nextWrite ≤ i → w.writes i = .idle

theorem Fresh.initial (h : w.initial) : Fresh w := by
  obtain ⟨-, -, -, -, -, -, -, -, -, hholds, hwrites, -⟩ := h
  exact ⟨fun i _ => by rw [hholds], fun i _ => by rw [hwrites]⟩

theorem Fresh.step (h : Fresh w) (hs : w.step S a = some w') : Fresh w' := by
  obtain ⟨hhold, hwrite⟩ := holds_writes_step hs
  refine ⟨fun i hi => ?_, fun i hi => ?_⟩
  · rcases hhold with ⟨hnext, hsame⟩ | rfl
    · rw [hnext] at hi
      have hidle := h.holds i hi
      rcases hsame i with heq | rfl | rfl
      · exact heq.trans hidle
      · simp [step, advanceHold, hidle] at hs
      · simp [step, hidle] at hs
    · cases hs
      exact (update_of_ne (Nat.ne_of_gt hi) _ _).trans (h.holds i (Nat.le_of_succ_le hi))
  · rcases hwrite with ⟨hnext, hsame⟩ | rfl
    · rw [hnext] at hi
      have hidle := h.writes i hi
      rcases hsame i with heq | rfl | rfl
      · exact heq.trans hidle
      · simp [step, advanceWrite, hidle] at hs
      · simp [step, writing, hidle] at hs
    · cases hs
      exact (update_of_ne (Nat.ne_of_gt hi) _ _).trans (h.writes i (Nat.le_of_succ_le hi))

/-! ## How much a task has before it -/

def Store.weight : Store → Nat
  | .objectstore => 9
  | .redis => 14
  | .clickhouse => 19
  | .postgres => 26

def TaskStage.weight : TaskStage → Nat
  | .idle | .done => 0
  | .commit => 1
  | .finish _ => 2
  | .failReceipt _ => 3
  | .certificate => 4
  | .finalize .objectstore => 5
  | .finalize .redis => 6
  | .finalize .clickhouse => 7
  | .finalize .postgres => 8
  | .upsert s _ => s.weight
  | .run s => s.weight + 1
  | .requireHold s => s.weight + 2
  | .requireLock s => s.weight + 3
  | .receipt s => s.weight + 4
  | .publish => 24
  | .commitPurge => 25
  | .auditBlocked => 31
  | .checkHold => 32
  | .lock => 33
  | .claim => 34

theorem nine_le_weight (s : Store) : 9 ≤ s.weight := by
  cases s <;> decide

theorem weight_after_lt (s : Store) : s.after.weight < s.weight := by
  cases s <;> decide

theorem weight_raised {unreachable : Option Store} : (T.raised unreachable).stage.weight ≤ 3 := by
  unfold Task.raised Task.ended
  split_ifs
  · exact Nat.zero_le _
  · cases unreachable <;> simp [TaskStage.weight]

theorem weight_next (hst : T.statement S W = some st) (hn : st.next = some next) : next.weight < T.stage.weight := by
  have hissues := issues_of_statement hst
  generalize T.stage = stage at hissues
  cases hissues with
  | kept s =>
    cases hn
    exact Nat.lt_of_lt_of_le (weight_after_lt s) (Nat.le_add_right _ _)
  | upsert s =>
    cases hn
    exact weight_after_lt s
  | finalized s | missing s =>
    cases hn
    cases s <;> decide
  | _ => cases hn <;> simp [TaskStage.weight, Store.weight]

theorem weight_after (hst : T.statement S W = some st) (memories : List Nat) :
    (T.after memories st).stage.weight < T.stage.weight := by
  have hissued := issued_of_statement hst
  cases st with
  | raise unreachable =>
    refine Nat.lt_of_le_of_lt weight_raised ?_
    rcases hissued with ⟨s, hs, -⟩ | ⟨s, -, hs, -⟩ <;>
    · have hnine := nine_le_weight s
      rw [hs]
      simp only [TaskStage.weight]
      omega
  | commit next =>
    rcases hissued with ⟨hs, rfl⟩ | ⟨hs, rfl⟩ <;> simp [hs, Task.after, Task.ended, TaskStage.weight]
  | _ => exact weight_next hst rfl

/-! ## Who has the lock -/

structure Loosens (o : Owner) (l l' : SharedLock Owner) : Prop where
  exclusive : ∀ o', o' ≠ o → l'.exclusive = some o' → l.exclusive = some o'
  shared : ∀ o', o' ≠ o → o' ∈ l'.shared → o' ∈ l.shared

theorem Loosens.refl (o : Owner) (l : SharedLock Owner) : Loosens o l l := ⟨fun _ _ => id, fun _ _ => id⟩

theorem Loosens.release (o : Owner) (l : SharedLock Owner) : Loosens o l (l.release o) :=
  ⟨fun _ _ h => (exclusive_of_release h).1, fun _ _ h => (shared_of_release h).1⟩

theorem Loosens.acquire {l l' : SharedLock Owner} (h : l.acquire o = some l') : Loosens o l l' := by
  refine ⟨fun o' hne hex => ?_, fun o' _ hsh => ?_⟩
  · rw [exclusive_of_acquire h] at hex
    exact absurd (some.inj hex).symm hne
  · rw [shared_of_acquire h] at hsh
    cases hsh

theorem Loosens.share {l l' : SharedLock Owner} (h : l.share o = some l') : Loosens o l l' := by
  refine ⟨fun o' _ hex => ?_, fun o' hne hsh => ?_⟩
  · rw [(exclusive_share h).2] at hex
    cases hex
  · rw [shared_share h] at hsh
    exact (List.mem_cons.mp hsh).resolve_left hne

def HoldStage.holding : HoldStage → Bool
  | .insert | .commit => true
  | _ => false

def WriteStage.holding : WriteStage → Bool
  | .check | .insert | .commit => true
  | _ => false

def Holding (w : World) (l : SharedLock Owner) : Owner → Prop
  | .task t => (l.exclusive = some (.task t) → (w.tasks t).stage.resting = false) ∧ .task t ∉ l.shared
  | .hold i => (l.exclusive = some (.hold i) → (w.holds i).holding = true) ∧ .hold i ∉ l.shared
  | .write i => (.write i ∈ l.shared → (w.writes i).holding = true) ∧ l.exclusive ≠ some (.write i)

structure LockInv (w : World) : Prop where
  holding : ∀ o, Holding w w.lock o
  drafts : ∀ t, (w.tasks t).stage.resting = true → (w.tasks t).receipts = []

theorem LockInv.moves (h : LockInv w) (hl : Loosens o w.lock w'.lock) (hself : Holding w' w'.lock o)
    (htasks : ∀ t, .task t ≠ o → w'.tasks t = w.tasks t) (hholds : ∀ i, .hold i ≠ o → w'.holds i = w.holds i)
    (hwrites : ∀ i, .write i ≠ o → w'.writes i = w.writes i)
    (hdrafts : ∀ t, .task t = o → (w'.tasks t).stage.resting = true → (w'.tasks t).receipts = []) : LockInv w' where
  holding o' := by
    by_cases ho : o' = o
    · exact ho ▸ hself
    · have hold := h.holding o'
      cases o' with
      | task t => exact ⟨fun hex => htasks t ho ▸ hold.1 (hl.exclusive _ ho hex), fun hsh =>
        hold.2 (hl.shared _ ho hsh)⟩
      | hold i => exact ⟨fun hex => hholds i ho ▸ hold.1 (hl.exclusive _ ho hex), fun hsh =>
        hold.2 (hl.shared _ ho hsh)⟩
      | write i => exact ⟨fun hsh => hwrites i ho ▸ hold.1 (hl.shared _ ho hsh), fun hex =>
        hold.2 (hl.exclusive _ ho hex)⟩
  drafts t := by
    by_cases ho : .task t = o
    · exact hdrafts t ho
    · rw [htasks t ho]
      exact h.drafts t

theorem LockInv.setTask (h : LockInv w) (hl : Loosens (.task t) w.lock W.lock)
    (hex : W.lock.exclusive = some (.task t) → T.stage.resting = false) (hsh : .task t ∉ W.lock.shared)
    (hdrafts : T.stage.resting = true → T.receipts = []) : LockInv ({ w with toTables := W }.setTask t T) := by
  have hself : ({ w with toTables := W }.setTask t T).tasks t = T := update_self _ _ _
  refine h.moves hl ⟨fun he => by rw [hself]; exact hex he, hsh⟩ (fun u hu => ?_) (fun _ _ => rfl) (fun _ _ => rfl) ?_
  · exact update_of_ne (fun heq => hu (congrArg Owner.task heq)) _ _
  · rintro u ⟨⟩ hrest
    rw [hself] at hrest ⊢
    exact hdrafts hrest

theorem LockInv.released (h : LockInv w) (hlock : W.lock = w.lock.release (.task t)) (hreceipts : T.receipts = []) :
    LockInv ({ w with toTables := W }.setTask t T) := by
  refine h.setTask (hlock ▸ .release _ _) (fun hex => ?_) (fun hsh => ?_) fun _ => hreceipts
  · rw [hlock] at hex
    exact absurd rfl (exclusive_of_release hex).2
  · rw [hlock] at hsh
    exact absurd rfl (shared_of_release hsh).2

theorem LockInv.initial (h : w.initial) : LockInv w := by
  obtain ⟨hlock, -, -, -, -, -, -, -, htasks, -⟩ := h
  refine ⟨fun o => ?_, fun t _ => by simp [htasks, Task.idle]⟩
  cases o <;> exact ⟨by simp [hlock, free], by simp [hlock, free]⟩

section

variable (h : LockInv w)
include h

section

variable (hjobs : JobInv w) (hst : (w.tasks t).statement S w.toTables = some st)
include hjobs hst

theorem LockInv.goOn (hn : st.next = some next) (hlock : W.lock = w.lock)
    (hstage : T.stage = next) (hreceipts : (w.tasks t).stage = .claim → T.receipts = (w.tasks t).receipts) :
    LockInv ({ w with toTables := W }.setTask t T) := by
  have hold := h.holding (.task t)
  rw [← hlock] at hold
  rcases statement_next (hjobs.steady t).fits hst hn with ⟨hclaim, -⟩ | ⟨-, hrest, -⟩
  · refine h.setTask (hlock ▸ .refl _ _) (fun hex => ?_) hold.2 fun _ => ?_
    · have hbusy := hold.1 hex
      rw [hclaim] at hbusy
      cases hbusy
    · rw [hreceipts hclaim]
      exact h.drafts t (by rw [hclaim]; rfl)
  · refine h.setTask (hlock ▸ .refl _ _) (fun _ => hstage ▸ hrest) hold.2 fun hrest' => ?_
    rw [hstage, hrest] at hrest'
    cases hrest'

theorem LockInv.locked (hn : st.next = some next) (hst' : st ≠ .claim .lock ∧ st ≠ .read .done)
    (hlock : w.lock.acquire (.task t) = some W.lock) (hstage : T.stage = next) :
    LockInv ({ w with toTables := W }.setTask t T) := by
  have hrest : T.stage.resting = false := by
    rcases statement_next (hjobs.steady t).fits hst hn with ⟨-, hclaim | hdone⟩ | ⟨-, hrest, -⟩
    · exact absurd hclaim hst'.1
    · exact absurd hdone hst'.2
    · exact hstage ▸ hrest
  refine h.setTask (.acquire hlock) (fun _ => hrest) ?_ fun hrest' => absurd (hrest.symm.trans hrest') (by decide)
  rw [shared_of_acquire hlock]
  exact List.not_mem_nil

theorem LockInv.exec (hs : w.exec t st = some w') : LockInv w' := by
  cases st with
  | read next | noHold next | runStage s next =>
    cases hs
    exact h.goOn hjobs hst rfl rfl rfl fun _ => rfl
  | advisoryLock next | certify next =>
    obtain ⟨lock, hlock, rfl⟩ := map_eq_some_iff.mp hs
    exact h.locked hjobs hst rfl ⟨nofun, nofun⟩ hlock rfl
  | claim next | updateJob status next =>
    obtain ⟨jobs, -, rfl⟩ := map_eq_some_iff.mp hs
    exact h.goOn hjobs hst rfl rfl rfl fun _ => rfl
  | upsertReceipt s r next =>
    obtain ⟨receipts, -, rfl⟩ := map_eq_some_iff.mp hs
    refine h.goOn hjobs hst rfl rfl rfl fun hclaim => ?_
    rcases statement_next (hjobs.steady t).fits hst rfl with ⟨-, hst' | hst'⟩ | ⟨hr, -⟩
    · cases hst'
    · cases hst'
    · rw [hclaim] at hr
      cases hr
  | raise unreachable =>
    cases hs
    rw [raise_eq]
    exact h.released rfl rfl
  | commit next =>
    cases hs
    exact h.released rfl rfl

end

theorem LockInv.same (hlock : w'.lock = w.lock) (htasks : w'.tasks = w.tasks) (hholds : w'.holds = w.holds)
    (hwrites : w'.writes = w.writes) : LockInv w' := by
  refine ⟨fun o => ?_, fun t => htasks ▸ h.drafts t⟩
  have hold := h.holding o
  cases o <;> simpa [Holding, hlock, htasks, hholds, hwrites] using hold

theorem LockInv.setHold {stage : HoldStage}
    (hl : Loosens (.hold i) w.lock W.lock) (hex : W.lock.exclusive = some (.hold i) → stage.holding = true)
    (hsh : .hold i ∉ W.lock.shared) :
    LockInv ({ w with toTables := W }.setHoldStage i stage) := by
  have hself : ({ w with toTables := W }.setHoldStage i stage).holds i = stage := update_self _ _ _
  refine h.moves hl ⟨fun he => by rw [hself]; exact hex he, hsh⟩ (fun _ _ => rfl) (fun u hu => ?_) (fun _ _ => rfl)
    nofun
  exact update_of_ne (fun heq => hu (congrArg Owner.hold heq)) _ _

theorem LockInv.endHold (i : Nat) (hold : Bool) : LockInv ({ w with hold }.endHold i) := by
  refine h.setHold (.release _ _) (fun hex => ?_) fun hsh => ?_
  · exact absurd rfl (exclusive_of_release hex).2
  · exact absurd rfl (shared_of_release hsh).2

theorem LockInv.advanceHold (hs : w.advanceHold i = some w') : LockInv w' := by
  unfold World.advanceHold at hs
  split at hs
  case h_1 =>
    obtain ⟨lock, hlock, rfl⟩ := map_eq_some_iff.mp hs
    refine h.setHold (.acquire hlock) (fun _ => rfl) ?_
    simp [shared_of_acquire hlock]
  case h_2 =>
    cases hs
    split_ifs
    · exact h.endHold i w.hold
    · exact h.setHold (.refl _ _) (fun _ => rfl) (h.holding (.hold i)).2
  case h_3 =>
    cases hs
    exact h.endHold i true
  all_goals cases hs

theorem LockInv.setWrite {stage : WriteStage}
    (hl : Loosens (.write i) w.lock W.lock) (hsh : .write i ∈ W.lock.shared → stage.holding = true)
    (hex : W.lock.exclusive ≠ some (.write i)) :
    LockInv ({ w with toTables := W }.setWriteStage i stage) := by
  have hself : ({ w with toTables := W }.setWriteStage i stage).writes i = stage := update_self _ _ _
  refine h.moves hl ⟨fun he => by rw [hself]; exact hsh he, hex⟩ (fun _ _ => rfl) (fun _ _ => rfl) (fun u hu => ?_)
    nofun
  exact update_of_ne (fun heq => hu (congrArg Owner.write heq)) _ _

theorem LockInv.endWrite (i : Nat) (stage : WriteStage) (memories : List Nat) :
    LockInv ({ w with memories }.endWrite i stage) := by
  refine h.setWrite (.release _ _) (fun hsh => ?_) fun hex => ?_
  · exact absurd rfl (shared_of_release hsh).2
  · exact absurd rfl (exclusive_of_release hex).2

theorem LockInv.advanceWrite (hs : w.advanceWrite i = some w') : LockInv w' := by
  have hnot := (h.holding (.write i)).2
  unfold World.advanceWrite at hs
  split at hs
  case h_1 =>
    obtain ⟨lock, hlock, rfl⟩ := map_eq_some_iff.mp hs
    refine h.setWrite (.share hlock) (fun _ => rfl) ?_
    simp [(exclusive_share hlock).2]
  case h_2 =>
    cases hs
    split_ifs
    · exact h.endWrite i .failed w.memories
    · exact h.setWrite (.refl _ _) (fun _ => rfl) hnot
  case h_3 =>
    cases hs
    exact h.setWrite (.refl _ _) (fun _ => rfl) hnot
  case h_4 =>
    cases hs
    exact h.endWrite i .committed (i :: w.memories)
  all_goals cases hs

theorem LockInv.step (hjobs : JobInv w) (hfresh : Fresh w) (hs : w.step S a = some w') : LockInv w' := by
  cases a with
  | advance t =>
    obtain ⟨st, hst, hs⟩ := bind_eq_some_iff.mp hs
    exact h.exec hjobs hst hs
  | error t =>
    obtain ⟨-, rfl⟩ := of_ite_some hs
    rw [raise_eq]
    exact h.released rfl rfl
  | crash t =>
    obtain ⟨-, rfl⟩ := of_ite_some hs
    have hroll : LockInv (w.rollback t (w.tasks t).phase .done) := h.released rfl rfl
    exact hroll.same rfl rfl rfl rfl
  | deliver j =>
    obtain ⟨-, rfl⟩ := of_ite_some hs
    have hold := h.holding (.task w.nextTask)
    have hset : LockInv (w.setTask w.nextTask (.start j)) := by
      refine h.setTask (.refl _ _) (fun hex => ?_) hold.2 fun _ => rfl
      have hbusy := hold.1 hex
      rw [hjobs.tasks _ (Nat.le_refl _)] at hbusy
      cases hbusy
    exact hset.same rfl rfl rfl rfl
  | advanceHold i => exact h.advanceHold hs
  | abortHold i =>
    obtain ⟨-, rfl⟩ := of_ite_none hs
    exact h.endHold i w.hold
  | setHold =>
    cases hs
    have hold := h.holding (.hold w.nextHold)
    have hset : LockInv (w.setHoldStage w.nextHold .lock) := by
      refine h.setHold (.refl _ _) (fun hex => ?_) hold.2
      have hbusy := hold.1 hex
      rw [hfresh.holds _ (Nat.le_refl _)] at hbusy
      cases hbusy
    exact hset.same rfl rfl rfl rfl
  | advanceWrite i => exact h.advanceWrite hs
  | abortWrite i =>
    obtain ⟨-, rfl⟩ := of_ite_some hs
    exact h.endWrite i .failed w.memories
  | write =>
    cases hs
    have hold := h.holding (.write w.nextWrite)
    have hset : LockInv (w.setWriteStage w.nextWrite .lock) := by
      refine h.setWrite (.refl _ _) (fun hsh => ?_) hold.2
      have hbusy := hold.1 hsh
      rw [hfresh.writes _ (Nat.le_refl _)] at hbusy
      cases hbusy
    exact hset.same rfl rfl rfl rfl
  | clearHold =>
    cases hs
    exact h.same rfl rfl rfl rfl
  | _ =>
    have hf := step_frame hs
    exact h.same (hf.lock (by simp [Action.party])) (hf.tasks (by simp [Action.party])).1
      (hf.holds (by simp [Action.party])).1 (hf.writes (by simp [Action.party])).1

end

theorem lockInv_of_reachable (h : (machine S).Reachable w) : Fresh w ∧ LockInv w := by
  have hall : JobInv w ∧ Fresh w ∧ LockInv w := by
    refine h.invariant (P := fun w => JobInv w ∧ Fresh w ∧ LockInv w)
      (fun _ h₀ => ⟨.initial h₀, .initial h₀, .initial h₀⟩) ?_
    rintro v a v' ⟨hjobs, hfresh, hlock⟩ hs
    exact ⟨hjobs.step hs, hfresh.step hs, hlock.step hjobs hfresh hs⟩
  exact hall.2

end IbexHarness.OrgDeletion
