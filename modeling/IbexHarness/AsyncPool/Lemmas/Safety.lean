import IbexHarness.AsyncPool.Pool
import Mathlib.Tactic.SplitIfs

/-! The steps of the pool, and what they keep. -/

namespace IbexHarness.AsyncPool

open Lib List Option World

section

variable {cfg : Config} {w w' : World} {i k s : Nat}

theorem send_of_open (hopen : w.jobsClosed = false) (next : CallStage) : w.send cfg i next =
    if w.jobs.length < cfg.queueSize then some ({ w with jobs := w.jobs ++ [i] }.setCall i next) else none := by
  rw [send, if_neg (by simp [hopen])]

/-- The steps of a call, with what each does to the rest of the pool. -/
inductive CallMove (w : World) (i : Nat) : CallStage → CallStage → World → Prop where
  | refused {try_ : Bool} : w.closed = true → CallMove w i (.begin try_) (.returned false) w
  | begunTry : w.closed = false → CallMove w i (.begin true) .lock w
  | begun : w.closed = false → CallMove w i (.begin false) .select w
  | quit : w.closed = true → CallMove w i .select (.done false) w
  | sent : w.jobsClosed = false → CallMove w i .select (.done true) { w with jobs := w.jobs ++ [i] }
  | locked : w.sendMu = none → CallMove w i .lock .check { w with sendMu := some (.call i) }
  | late : w.closed = true → CallMove w i .check (.unlock false) w
  | checked : w.closed = false → CallMove w i .check .trySend w
  | trySent : w.jobsClosed = false → CallMove w i .trySend (.unlock true) { w with jobs := w.jobs ++ [i] }
  | full : CallMove w i .trySend (.unlock false) w
  | unlocked {ok : Bool} : CallMove w i (.unlock ok) (.done ok) { w with sendMu := none }
  | returned {ok : Bool} : CallMove w i (.done ok) (.returned ok) w

theorem callMove {choice : Choice} (hopen : ∀ st, w.calls[i]? = some st → st.counted = true → w.jobsClosed = false)
    (hs : w.advanceCall cfg i choice = some w') :
    ∃ st st' v, w.calls[i]? = some st ∧ CallMove w i st st' v ∧ w' = v.setCall i st' := by
  unfold advanceCall at hs
  split at hs
  case h_1 try_ hst =>
    cases hs
    cases hclosed : w.closed with
    | true => exact ⟨_, _, _, hst, .refused hclosed, rfl⟩
    | false =>
      cases try_ with
      | true => exact ⟨_, _, _, hst, .begunTry hclosed, rfl⟩
      | false => exact ⟨_, _, _, hst, .begun hclosed, rfl⟩
  case h_2 hst =>
    cases choice with
    | quit =>
      obtain ⟨hclosed, rfl⟩ := of_ite_some hs
      exact ⟨_, _, _, hst, .quit hclosed, rfl⟩
    | send =>
      have hopen := hopen _ hst rfl
      rw [send_of_open hopen] at hs
      obtain ⟨-, rfl⟩ := of_ite_some hs
      exact ⟨_, _, _, hst, .sent hopen, rfl⟩
  case h_3 hst =>
    obtain ⟨hfree, rfl⟩ := of_ite_some hs
    exact ⟨_, _, _, hst, .locked hfree, rfl⟩
  case h_4 hst =>
    cases hs
    cases hclosed : w.closed with
    | true => exact ⟨_, _, _, hst, .late hclosed, rfl⟩
    | false => exact ⟨_, _, _, hst, .checked hclosed, rfl⟩
  case h_5 hst =>
    have hopen := hopen _ hst rfl
    cases hs
    rw [send_of_open hopen]
    split_ifs
    · exact ⟨_, _, _, hst, .trySent hopen, rfl⟩
    · exact ⟨_, _, _, hst, .full, rfl⟩
  case h_6 ok hst =>
    cases hs
    exact ⟨_, _, _, hst, .unlocked, rfl⟩
  case h_7 ok hst =>
    cases hs
    exact ⟨_, _, _, hst, .returned, rfl⟩
  all_goals cases hs

inductive WorkerMove (w : World) (k : Nat) : World → Prop where
  | received {job : Nat} {jobs : List Nat} : w.workers[k]? = some .receive → w.jobs = job :: jobs →
      WorkerMove w k ({ w with jobs, ran := w.ran ++ [job] }.setWorker k (.running job))
  | exited : w.workers[k]? = some .receive → w.jobs = [] → w.jobsClosed = true →
      WorkerMove w k (w.setWorker k .exited)
  | finished {job : Nat} : w.workers[k]? = some (.running job) →
      WorkerMove w k ({ w with finished := w.finished ++ [job] }.setWorker k .receive)

theorem workerMove (hs : w.advanceWorker k = some w') : WorkerMove w k w' := by
  unfold advanceWorker at hs
  split at hs
  case h_1 hst =>
    split at hs
    case h_1 job jobs hjobs =>
      cases hs
      exact .received hst hjobs
    case h_2 hjobs =>
      obtain ⟨hclosed, rfl⟩ := of_ite_some hs
      exact .exited hst hjobs hclosed
  case h_2 job hst =>
    cases hs
    exact .finished hst
  all_goals cases hs

inductive ShutdownMove (w : World) (S : Shutdown) : Action → ShutdownStage → World → Prop where
  | first {s : Nat} : S.stage = .once → w.drain = .none →
      ShutdownMove w S (.advanceShutdown s) .select { w with closed := true, drain := .waitSubmits }
  | joined {s : Nat} : S.stage = .once → w.drain ≠ .none → ShutdownMove w S (.advanceShutdown s) .select w
  | returned {s : Nat} : S.stage = .select → w.drain = .drained →
      ShutdownMove w S (.advanceShutdown s) (.returned true) w
  | cancelled {s : Nat} : S.deadline = true → ShutdownMove w S (.cancel s) (.returned false) w

theorem shutdownMove (hs : w.advanceShutdown s = some w') :
    ∃ S stage v, w.shutdowns[s]? = some S ∧ ShutdownMove w S (.advanceShutdown s) stage v ∧
      w' = v.setShutdown s stage S := by
  unfold advanceShutdown at hs
  split at hs
  case h_1 => cases hs
  case h_2 S hS =>
    split at hs
    case h_1 hstage =>
      split_ifs at hs with hd
      · cases hs
        exact ⟨_, _, _, hS, .first hstage hd, rfl⟩
      · cases hs
        exact ⟨_, _, _, hS, .joined hstage hd, rfl⟩
    case h_2 hstage =>
      obtain ⟨hd, rfl⟩ := of_ite_some hs
      exact ⟨_, _, _, hS, .returned hstage hd, rfl⟩
    case h_3 => cases hs

theorem cancelMove (hs : w.cancel s = some w') :
    ∃ S stage v, w.shutdowns[s]? = some S ∧ ShutdownMove w S (.cancel s) stage v ∧ w' = v.setShutdown s stage S := by
  unfold cancel at hs
  split at hs
  case h_1 => cases hs
  case h_2 S hS =>
    obtain ⟨⟨hdeadline, -⟩, rfl⟩ := of_ite_some hs
    exact ⟨_, _, _, hS, .cancelled hdeadline, rfl⟩

inductive DrainMove (w : World) : World → Prop where
  | submitted : w.drain = .waitSubmits → w.calls.any CallStage.counted = false → DrainMove w { w with drain := .lock }
  | locked : w.drain = .lock → w.sendMu = none → DrainMove w { w with sendMu := some .drain, drain := .close }
  | closed : w.drain = .close → DrainMove w { w with jobsClosed := true, drain := .unlock }
  | unlocked : w.drain = .unlock → DrainMove w { w with sendMu := none, drain := .waitWorkers }
  | drained : w.drain = .waitWorkers → w.workers.all (· = .exited) = true → DrainMove w { w with drain := .drained }

theorem drainMove (hs : w.advanceDrain = some w') : DrainMove w w' := by
  unfold advanceDrain at hs
  split at hs
  case h_1 hd =>
    obtain ⟨hno, rfl⟩ := of_ite_none hs
    exact .submitted hd (by simpa using hno)
  case h_2 hd =>
    obtain ⟨hfree, rfl⟩ := of_ite_some hs
    exact .locked hd hfree
  case h_3 hd =>
    cases hs
    exact .closed hd
  case h_4 hd =>
    cases hs
    exact .unlocked hd
  case h_5 hd =>
    obtain ⟨hall, rfl⟩ := of_ite_some hs
    exact .drained hd hall
  all_goals cases hs

end

section

def CallStage.holding : CallStage → Bool
  | .check | .trySend | .unlock _ => true
  | _ => false

def CallStage.sent : CallStage → Bool
  | .unlock ok | .done ok | .returned ok => ok
  | _ => false

variable {cfg : Config} {w w' : World} {i : Nat} {st st' : CallStage}

structure Inv (cfg : Config) (w : World) : Prop where
  panicked : w.panicked = false
  closed : w.closed = true ↔ w.drain ≠ .none
  jobsClosed : w.jobsClosed = true ↔ w.drain = .unlock ∨ w.drain = .waitWorkers ∨ w.drain = .drained
  counted : ∀ (i : Nat) (st : CallStage), w.calls[i]? = some st → st.counted = true →
    w.drain = .none ∨ w.drain = .waitSubmits
  holder : ∀ i : Nat, w.sendMu = some (.call i) ↔ (w.calls[i]?).any CallStage.holding = true
  drainer : w.sendMu = some .drain ↔ w.drain = .close ∨ w.drain = .unlock
  sent : ∀ i : Nat, w.jobs.count i + w.ran.count i = if (w.calls[i]?).any CallStage.sent then 1 else 0
  ran : ∀ j, w.ran.count j = w.finished.count j + w.workers.count (.running j)
  workers : w.workers.length = cfg.workers
  exited : .exited ∈ w.workers → w.jobsClosed = true ∧ w.jobs = []
  drained : w.drain = .drained → ∀ st ∈ w.workers, st = .exited
  returned : ∀ S ∈ w.shutdowns, S.stage = .returned true → w.drain = .drained

theorem Inv.initial (cfg : Config) : Inv cfg (initial cfg) := by
  constructor <;> simp [AsyncPool.initial, count_replicate]

theorem Inv.setCall {jobs : List Nat} {sendMu : Option Holder} (h : Inv cfg w) (hst : w.calls[i]? = some st)
    (hcounted : st'.counted = true → w.drain = .none ∨ w.drain = .waitSubmits)
    (hjobs : jobs = w.jobs ∧ st'.sent = st.sent ∨ jobs = w.jobs ++ [i] ∧ st.sent = false ∧ st'.sent = true ∧
      w.jobsClosed = false)
    (hmu : sendMu = w.sendMu ∧ st'.holding = st.holding ∨
      w.sendMu = none ∧ sendMu = some (.call i) ∧ st'.holding = true ∨
      w.sendMu = some (.call i) ∧ sendMu = none ∧ st'.holding = false) :
    Inv cfg ({ w with jobs, sendMu }.setCall i st') := by
  have hget := Parties.getElem?_set hst st'
  have hself : (w.calls[i]?).any CallStage.holding = st.holding := by rw [hst]; rfl
  refine ⟨h.panicked, h.closed, h.jobsClosed, fun j s hs hc => ?_, fun j => ?_, ?_, fun j => ?_, h.ran, h.workers,
    fun hex => ?_, h.drained, h.returned⟩
  · simp only [World.setCall, hget] at hs
    split_ifs at hs with hj
    · cases hs
      exact hcounted hc
    · exact h.counted j s hs hc
  · simp only [World.setCall, hget]
    by_cases hj : j = i
    · subst hj
      have hold := h.holder j
      rw [hself] at hold
      simp only [if_true, any_some]
      rcases hmu with ⟨rfl, heq⟩ | ⟨-, rfl, heq⟩ | ⟨-, rfl, heq⟩
      · rw [hold, heq]
      · simp [heq]
      · simp [heq]
    · have hold := h.holder j
      simp only [if_neg hj]
      rcases hmu with ⟨rfl, -⟩ | ⟨hnone, rfl, -⟩ | ⟨hi, rfl, -⟩
      · exact hold
      · rw [← hold]
        simp [hnone, Ne.symm hj]
      · rw [← hold]
        simp [hi, Ne.symm hj]
  · have hold := h.drainer
    rcases hmu with ⟨rfl, -⟩ | ⟨hnone, rfl, -⟩ | ⟨hi, rfl, -⟩
    · exact hold
    · simpa [World.setCall, hnone] using hold
    · simpa [World.setCall, hi] using hold
  · have hs := h.sent j
    simp only [World.setCall, hget]
    by_cases hj : j = i
    · subst hj
      rw [hst] at hs
      simp only [any_some, if_true] at hs ⊢
      rcases hjobs with ⟨rfl, heq⟩ | ⟨rfl, hno, hyes, -⟩
      · rw [heq]
        exact hs
      · simp only [hno, Bool.false_eq_true, if_false] at hs
        simp only [hyes, if_true, count_append, count_singleton_self]
        omega
    · simp only [if_neg hj]
      rcases hjobs with ⟨rfl, -⟩ | ⟨rfl, -⟩
      · exact hs
      · simpa [count_append, count_singleton, beq_eq_false_iff_ne.mpr (Ne.symm hj)] using hs
  · obtain ⟨hclosed, hempty⟩ := h.exited hex
    rcases hjobs with ⟨rfl, -⟩ | ⟨rfl, -, -, hopen⟩
    · exact ⟨hclosed, hempty⟩
    · exact absurd (hclosed.symm.trans hopen) (by decide)

theorem Inv.open_of_counted (h : Inv cfg w) (hst : w.calls[i]? = some st) (hc : st.counted = true) :
    w.jobsClosed = false := by
  by_contra hclosed
  have hdrain := h.jobsClosed.mp (by simpa using hclosed)
  rcases h.counted i st hst hc with hd | hd <;> simp [hd] at hdrain

theorem Inv.advanceCall (h : Inv cfg w) {choice : Choice} (hs : w.advanceCall cfg i choice = some w') : Inv cfg w' := by
  obtain ⟨st, st', v, hst, hmove, rfl⟩ := callMove (fun _ => h.open_of_counted) hs
  have hbegin : w.closed = false → w.drain = .none ∨ w.drain = .waitSubmits := by
    intro hopen
    refine .inl ?_
    by_contra hne
    exact absurd ((h.closed.mpr hne).symm.trans hopen) (by decide)
  cases hmove with
  | refused | returned => exact h.setCall hst nofun (.inl ⟨rfl, rfl⟩) (.inl ⟨rfl, rfl⟩)
  | begunTry hopen | begun hopen => exact h.setCall hst (fun _ => hbegin hopen) (.inl ⟨rfl, rfl⟩) (.inl ⟨rfl, rfl⟩)
  | quit => exact h.setCall hst (fun _ => h.counted i _ hst rfl) (.inl ⟨rfl, rfl⟩) (.inl ⟨rfl, rfl⟩)
  | sent hopen | trySent hopen =>
    exact h.setCall hst (fun _ => h.counted i _ hst rfl) (.inr ⟨rfl, rfl, rfl, hopen⟩) (.inl ⟨rfl, rfl⟩)
  | locked hfree =>
    exact h.setCall hst (fun _ => h.counted i _ hst rfl) (.inl ⟨rfl, rfl⟩) (.inr (.inl ⟨hfree, rfl, rfl⟩))
  | late => exact h.setCall hst (fun _ => h.counted i _ hst rfl) (.inl ⟨rfl, rfl⟩) (.inl ⟨rfl, rfl⟩)
  | checked => exact h.setCall hst (fun _ => h.counted i _ hst rfl) (.inl ⟨rfl, rfl⟩) (.inl ⟨rfl, rfl⟩)
  | full => exact h.setCall hst (fun _ => h.counted i _ hst rfl) (.inl ⟨rfl, rfl⟩) (.inl ⟨rfl, rfl⟩)
  | unlocked =>
    have hmu : w.sendMu = some (.call i) := (h.holder i).mpr (by rw [hst]; rfl)
    exact h.setCall hst (fun _ => h.counted i _ hst rfl) (.inl ⟨rfl, rfl⟩) (.inr (.inr ⟨hmu, rfl, rfl⟩))

theorem Inv.submit (h : Inv cfg w) (try_ nil : Bool) :
    Inv cfg { w with calls := w.calls ++ [if nil then .returned false else .begin try_] } := by
  have hget : ∀ (j : Nat) (s : CallStage),
      (w.calls ++ [if nil then CallStage.returned false else .begin try_])[j]? = some s →
      w.calls[j]? = some s ∨ s.counted = false ∧ s.holding = false ∧ s.sent = false ∧ w.calls[j]? = none := by
    intro j s hs
    rw [List.getElem?_append] at hs
    split_ifs at hs with hlt hnil
    · exact .inl hs
    all_goals
      have hmem : s ∈ [_] := mem_of_getElem? hs
      rw [mem_singleton.mp hmem]
      exact .inr ⟨rfl, rfl, rfl, List.getElem?_eq_none_iff.mpr (Nat.le_of_not_lt hlt)⟩
  have hany : ∀ (p : CallStage → Bool) (j : Nat),
      (∀ s : CallStage, s.counted = false ∧ s.holding = false ∧ s.sent = false → p s = false) →
      ((w.calls ++ [if nil then CallStage.returned false else .begin try_])[j]?).any p = (w.calls[j]?).any p := by
    intro p j hp
    cases hs : (w.calls ++ [if nil then CallStage.returned false else .begin try_])[j]? with
    | none =>
      have hlen := List.getElem?_eq_none_iff.mp hs
      rw [List.length_append] at hlen
      rw [List.getElem?_eq_none_iff.mpr (Nat.le_of_add_right_le hlen)]
    | some s =>
      rcases hget j s hs with hold | ⟨hc, hh, hsent, hnone⟩
      · rw [hold]
      · simp [hnone, hp s ⟨hc, hh, hsent⟩]
  refine { h with counted := fun j s hs hc => ?_, holder := fun j => ?_, sent := fun j => ?_ }
  · rcases hget j s hs with hold | ⟨hno, -⟩
    · exact h.counted j s hold hc
    · exact absurd (hc.symm.trans hno) (by decide)
  · rw [h.holder j, hany _ j fun s hs => hs.2.1]
  · rw [hany _ j fun s hs => hs.2.2]
    exact h.sent j

theorem count_set {ws : List WorkerStage} {k : Nat} {st : WorkerStage} (hst : ws[k]? = some st) (st' x : WorkerStage) :
    (ws.set k st').count x + (if st = x then 1 else 0) = ws.count x + (if st' = x then 1 else 0) := by
  obtain ⟨hlt, rfl⟩ := List.getElem?_eq_some_iff.mp hst
  have hpos : (if ws[k] = x then 1 else 0) ≤ ws.count x := by
    split_ifs with heq
    · exact List.count_pos_iff.mpr (heq ▸ List.getElem_mem hlt)
    · exact Nat.zero_le _
  rw [List.count_set hlt]
  simp only [beq_iff_eq]
  omega

section

variable (h : Inv cfg w)
include h

theorem Inv.advanceWorker {k : Nat} (hs : w.advanceWorker k = some w') : Inv cfg w' := by
  have hlen : ∀ st, (w.workers.set k st).length = cfg.workers := fun st => by rw [length_set, h.workers]
  have hnot : ∀ st, w.workers[k]? = some st → st ≠ .exited → w.drain ≠ .drained :=
    fun st hst hne hd => hne (h.drained hd st (mem_of_getElem? hst))
  cases workerMove hs with
  | @received job jobs hst hjobs =>
    refine { h with
      sent := fun j => ?_, ran := fun j => ?_, workers := hlen _, exited := fun hex => ?_
      drained := fun hd => absurd hd (hnot _ hst nofun) }
    · refine Eq.trans ?_ (h.sent j)
      simp only [setWorker, hjobs, count_append, count_cons, count_nil]
      omega
    · have hran := h.ran j
      have hset := count_set hst (.running job) (.running j)
      simp only [setWorker, count_append, count_cons, count_nil, beq_iff_eq,
        WorkerStage.running.injEq, reduceCtorEq, if_false] at hset ⊢
      omega
    · rcases mem_or_eq_of_mem_set hex with hex | hex
      · have hempty := (h.exited hex).2
        rw [hjobs] at hempty
        cases hempty
      · cases hex
  | exited hst hjobs hclosed =>
    refine { h with
      ran := fun j => ?_, workers := hlen _, exited := fun _ => ⟨hclosed, hjobs⟩
      drained := fun hd => absurd hd (hnot _ hst nofun) }
    have hset := count_set hst .exited (.running j)
    simp only [reduceCtorEq, if_false, Nat.add_zero] at hset
    simp only [setWorker, hset]
    exact h.ran j
  | @finished job hst =>
    refine { h with
      ran := fun j => ?_, workers := hlen _, exited := fun hex => ?_, drained := fun hd =>
        absurd hd (hnot _ hst nofun) }
    · have hran := h.ran j
      have hset := count_set hst .receive (.running j)
      simp only [setWorker, count_append, count_cons, count_nil, beq_iff_eq,
        WorkerStage.running.injEq, reduceCtorEq, if_false] at hset ⊢
      omega
    · rcases mem_or_eq_of_mem_set hex with hex | hex
      · exact h.exited hex
      · cases hex

theorem Inv.setShutdowns {shutdowns : List Shutdown}
    (hret : ∀ S ∈ shutdowns, S.stage = .returned true → S ∈ w.shutdowns ∨ w.drain = .drained) :
    Inv cfg { w with shutdowns } :=
  { h with returned := fun S hS hstage => (hret S hS hstage).elim (fun hS => h.returned S hS hstage) id }

theorem Inv.setShutdown {s : Nat} {S : Shutdown} {stage : ShutdownStage}
    (hret : stage = .returned true → w.drain = .drained) : Inv cfg (w.setShutdown s stage S) := by
  refine h.setShutdowns fun S' hS' hstage => ?_
  rcases mem_or_eq_of_mem_set hS' with hmem | rfl
  · exact .inl hmem
  · exact .inr (hret hstage)

theorem Inv.quit (hd : w.drain = .none) : Inv cfg { w with closed := true, drain := .waitSubmits } :=
  ⟨h.panicked, by simp, by simpa [hd] using h.jobsClosed, fun _ _ _ _ => .inr rfl, h.holder,
    by simpa [hd] using h.drainer, h.sent, h.ran, h.workers, h.exited, nofun,
    fun S hS hstage => absurd (hd.symm.trans (h.returned S hS hstage)) (by decide)⟩

theorem Inv.moveShutdown {s : Nat} {S : Shutdown} {stage : ShutdownStage} {v : World} {a : Action}
    (hmove : ShutdownMove w S a stage v) : Inv cfg (v.setShutdown s stage S) := by
  cases hmove with
  | first _ hd => exact (h.quit hd).setShutdown nofun
  | joined | cancelled => exact h.setShutdown nofun
  | returned _ hd => exact h.setShutdown fun _ => hd

theorem Inv.advanceDrain (hs : w.advanceDrain = some w') : Inv cfg w' := by
  -- past the wait for the submits none is in progress
  have hnone : ∀ {drain : DrainStage}, (w.drain ≠ .none ∧ w.drain ≠ .waitSubmits) → ∀ (i : Nat) (st : CallStage),
      w.calls[i]? = some st → st.counted = true → drain = .none ∨ drain = .waitSubmits := by
    intro drain hd i st hst hc
    rcases h.counted i st hst hc with hd' | hd'
    · exact absurd hd' hd.1
    · exact absurd hd' hd.2
  have hret : ∀ {drain : DrainStage}, w.drain ≠ .drained → ∀ S ∈ w.shutdowns, S.stage = .returned true →
      drain = .drained :=
    fun hd S hS hstage => absurd (h.returned S hS hstage) hd
  cases drainMove hs with
  | submitted hd hno =>
    refine ⟨h.panicked, by simp [h.closed, hd], by simpa [hd] using h.jobsClosed, fun i st hst hc => ?_, h.holder,
      by simpa [hd] using h.drainer, h.sent, h.ran, h.workers, h.exited, nofun, hret (by simp [hd])⟩
    have hany : w.calls.any CallStage.counted = true := any_eq_true.mpr ⟨st, mem_of_getElem? hst, hc⟩
    exact absurd (hany.symm.trans hno) (by decide)
  | locked hd hfree =>
    refine ⟨h.panicked, by simp [h.closed, hd], by simpa [hd] using h.jobsClosed, hnone (by simp [hd]), fun i => ?_,
      by simp, h.sent, h.ran, h.workers, h.exited, nofun, hret (by simp [hd])⟩
    have hold := h.holder i
    rw [hfree] at hold
    simpa using hold
  | closed hd =>
    exact ⟨h.panicked, by simp [h.closed, hd], by simp, hnone (by simp [hd]), h.holder,
      by simpa [hd] using h.drainer, h.sent, h.ran, h.workers, fun hex => ⟨rfl, (h.exited hex).2⟩, nofun,
      hret (by simp [hd])⟩
  | unlocked hd =>
    have hmu : w.sendMu = some .drain := h.drainer.mpr (.inr hd)
    refine ⟨h.panicked, by simp [h.closed, hd], by simpa [hd] using h.jobsClosed, hnone (by simp [hd]), fun i => ?_,
      by simp, h.sent, h.ran, h.workers, h.exited, nofun, hret (by simp [hd])⟩
    have hold := h.holder i
    rw [hmu] at hold
    simpa using hold
  | drained hd hall =>
    exact ⟨h.panicked, by simp [h.closed, hd], by simpa [hd] using h.jobsClosed, hnone (by simp [hd]), h.holder,
      by simpa [hd] using h.drainer, h.sent, h.ran, h.workers, h.exited,
      fun _ st hst => by simpa using all_eq_true.mp hall st hst, fun _ _ _ => rfl⟩

theorem Inv.step {a : Action} (hs : w.step cfg a = some w') : Inv cfg w' := by
  cases a with
  | submit try_ nil =>
    cases hs
    exact h.submit try_ nil
  | advanceCall i choice => exact h.advanceCall hs
  | worker k => exact h.advanceWorker hs
  | shutdown deadline =>
    cases hs
    refine h.setShutdowns fun S hS hstage => ?_
    rcases mem_append.mp hS with hmem | hnew
    · exact .inl hmem
    · rw [mem_singleton.mp hnew] at hstage
      cases hstage
  | advanceShutdown s =>
    obtain ⟨S, stage, v, -, hmove, rfl⟩ := shutdownMove hs
    exact h.moveShutdown hmove
  | cancel s =>
    obtain ⟨S, stage, v, -, hmove, rfl⟩ := cancelMove hs
    exact h.moveShutdown hmove
  | drain => exact h.advanceDrain hs

end

theorem inv_of_reachable (hr : (machine cfg).Reachable w) : Inv cfg w := by
  refine hr.invariant ?_ fun v a v' hi hs => ?_
  · rintro v rfl
    exact .initial cfg
  · exact hi.step (ite_none_left_eq_some.mp hs).2

end

end IbexHarness.AsyncPool
