import IbexHarness.AsyncPool.Lemmas.Safety
import IbexHarness.Lib.Liveness
import Mathlib.Algebra.BigOperators.Group.List.Basic
import Mathlib.Algebra.GroupWithZero.Nat

/-! For a queued job the first worker is the party that helps: it never exits before the channel is empty. -/

namespace IbexHarness.AsyncPool

section

open Lib List Option World WorkerStage

variable {cfg : Config} {w w' : World} {a : Action}

inductive Party where
  | call (i : Nat)
  | worker (k : Nat)
  | shutdown (s : Nat)
  | drain

def Party.acts : Party → Action → Prop
  | .call i, a => ∃ choice, a = .advanceCall i choice
  | .worker k, a => a = .worker k
  | .shutdown s, a => a = .advanceShutdown s
  | .drain, a => a = .drain

variable {i n s : Nat} {t : (machine cfg).Trace}

theorem machine_step_ne_none (h : Inv cfg w) : (machine cfg).step w a ≠ none ↔ w.step cfg a ≠ none := by
  simp [machine, h.panicked]

theorem step_of_machine (hs : (machine cfg).step w a = some w') : w.step cfg a = some w' :=
  (ite_none_left_eq_some.mp hs).2

theorem Inv.jobs_step (h : Inv cfg w) (hs : w.step cfg a = some w') (ha : ∀ k, a ≠ .worker k) :
    w'.workers = w.workers ∧ ∃ added, w'.jobs = w.jobs ++ added := by
  cases a with
  | submit | shutdown =>
    cases hs
    exact ⟨rfl, [], (append_nil _).symm⟩
  | advanceCall i choice =>
    obtain ⟨st, st', v, -, hmove, rfl⟩ := callMove (fun _ => h.open_of_counted) hs
    cases hmove with
    | sent | trySent => exact ⟨rfl, [i], rfl⟩
    | _ => exact ⟨rfl, [], (append_nil _).symm⟩
  | worker k => exact absurd rfl (ha k)
  | advanceShutdown s =>
    obtain ⟨S, stage, v, -, hmove, rfl⟩ := shutdownMove hs
    cases hmove <;> exact ⟨rfl, [], (append_nil _).symm⟩
  | cancel s =>
    obtain ⟨S, stage, v, -, hmove, rfl⟩ := cancelMove hs
    cases hmove
    exact ⟨rfl, [], (append_nil _).symm⟩
  | drain => cases drainMove hs <;> exact ⟨rfl, [], (append_nil _).symm⟩

def WorkerStage.left : WorkerStage → Nat
  | .running _ => 2
  | .receive => 1
  | .exited => 0

def World.ahead (w : World) (i : Nat) : Nat := 2 * w.jobs.idxOf i + (w.workers[0]?).elim 0 WorkerStage.left

theorem Inv.first_worker (h : Inv cfg w) (hi : i ∈ w.jobs) : w.advanceWorker 0 ≠ none := by
  have hlt : 0 < w.workers.length := h.workers ▸ cfg.workers_pos
  have hget : w.workers[0]? = some w.workers[0] := List.getElem?_eq_getElem hlt
  cases hst : w.workers[0] with
  | receive =>
    rw [hst] at hget
    cases hjobs : w.jobs with
    | nil => simp [hjobs] at hi
    | cons job jobs => simp [World.advanceWorker, hget, hjobs]
  | running job =>
    rw [hst] at hget
    simp [World.advanceWorker, hget]
  | exited =>
    have hempty := (h.exited (hst ▸ getElem_mem hlt)).2
    rw [hempty] at hi
    cases hi

theorem Inv.ahead_step (h : Inv cfg w) (hi : i ∈ w.jobs) (hs : w.step cfg a = some w') :
    i ∈ w'.ran ∨ i ∈ w'.jobs ∧ (w'.ahead i < w.ahead i ∨ w'.ahead i = w.ahead i ∧ a ≠ .worker 0) := by
  by_cases ha : ∃ k, a = .worker k
  · obtain ⟨k, rfl⟩ := ha
    cases workerMove hs with
    | @received job jobs hst hjobs =>
      by_cases hj : job = i
      · exact .inl (by simp [setWorker, hj])
      · rw [hjobs] at hi
        have hmem : i ∈ jobs := (mem_cons.mp hi).resolve_left (Ne.symm hj)
        refine .inr ⟨hmem, .inl ?_⟩
        have hidx : w.jobs.idxOf i = jobs.idxOf i + 1 := by rw [hjobs, idxOf_cons_ne _ hj]
        have hlt := (List.getElem?_eq_some_iff.mp hst).1
        by_cases hk : k = 0
        · subst hk
          simp only [ahead, setWorker, hidx, hst, List.getElem?_set_self hlt, elim_some, left]
          omega
        · simp only [ahead, setWorker, hidx, List.getElem?_set_ne hk]
          omega
    | exited hst hjobs hclosed =>
      rw [hjobs] at hi
      cases hi
    | @finished job hst =>
      refine .inr ⟨hi, ?_⟩
      by_cases hk : k = 0
      · subst hk
        have hlt := (List.getElem?_eq_some_iff.mp hst).1
        refine .inl ?_
        simp [ahead, setWorker, hst, List.getElem?_set_self hlt, left]
      · refine .inr ⟨?_, by simpa using hk⟩
        simp [ahead, setWorker, hk]
  · obtain ⟨hworkers, added, hjobs⟩ := h.jobs_step hs fun k hk => ha ⟨k, hk⟩
    refine .inr ⟨hjobs ▸ mem_append_left _ hi, .inr ⟨?_, fun h0 => ha ⟨0, h0⟩⟩⟩
    rw [ahead, ahead, hworkers, hjobs, idxOf_append_of_mem hi]

theorem eventually_runs (hfair : t.Fair (Party.worker 0).acts)
    (hi : i ∈ (t.state n).jobs) : ∃ m, n ≤ m ∧ i ∈ (t.state m).ran := by
  refine Machine.Trace.eventually (ι := Unit) (A := fun _ => (Party.worker 0).acts) (P := fun v => i ∈ v.jobs)
    (Q := fun v => i ∈ v.ran) (H := fun _ _ => True) (fun v => v.ahead i) (fun _ => hfair) ?_ ?_ ?_ hi
  · exact fun _ _ _ => ⟨(), trivial⟩
  · intro v _ hr hmem _
    have hinv := inv_of_reachable hr
    exact ⟨.worker 0, rfl, (machine_step_ne_none hinv).mpr (hinv.first_worker hmem)⟩
  · intro v a v' _ hr hmem _ hs
    rcases (inv_of_reachable hr).ahead_step hmem (step_of_machine hs) with hran | ⟨hstay, hlt | ⟨heq, ha⟩⟩
    · exact .inl hran
    · exact .inr ⟨hstay, .inl hlt⟩
    · exact .inr ⟨hstay, .inr ⟨heq, trivial, ha⟩⟩

/-! ## The work that is left -/

def CallStage.left : CallStage → Nat
  | .lock => 7
  | .check => 6
  | .trySend => 5
  | .select => 4
  | .unlock _ => 2
  | .done _ => 1
  | .begin _ | .returned _ => 0

def DrainStage.left : DrainStage → Nat
  | .none => 7
  | .waitSubmits => 6
  | .lock => 5
  | .close => 4
  | .unlock => 3
  | .waitWorkers => 2
  | .drained => 1

def World.work (w : World) : Nat :=
  (w.calls.map CallStage.left).sum + 2 * w.jobs.length + (w.workers.map WorkerStage.left).sum + w.drain.left

theorem sum_map_set {α : Type*} {l : List α} {x y : α} (f : α → Nat) (h : l[i]? = some x) :
    ((l.set i y).map f).sum + f x = (l.map f).sum + f y := by
  induction l generalizing i with
  | nil => cases h
  | cons z l ih =>
    cases i with
    | zero =>
      cases h
      simp only [set_cons_zero, map_cons, sum_cons]
      omega
    | succ i =>
      have hrest := ih h
      simp only [set_cons_succ, map_cons, sum_cons]
      omega

structure Quiet (w w' : World) : Prop where
  drain : w'.drain = w.drain
  sendMu : w'.sendMu = w.sendMu
  jobs : w'.jobs = w.jobs
  jobsClosed : w'.jobsClosed = w.jobsClosed
  workers : w'.workers = w.workers
  calls : ∀ i : Nat, (w'.calls[i]?).filter CallStage.counted = (w.calls[i]?).filter CallStage.counted
  work : w'.work = w.work

theorem Quiet.shutdowns (shutdowns : List Shutdown) : Quiet w { w with shutdowns } :=
  ⟨rfl, rfl, rfl, rfl, rfl, fun _ => rfl, rfl⟩

theorem Quiet.submit (try_ nil : Bool) :
    Quiet w { w with calls := w.calls ++ [if nil then .returned false else .begin try_] } := by
  refine ⟨rfl, rfl, rfl, rfl, rfl, fun i => ?_, ?_⟩
  · rw [List.getElem?_append]
    split_ifs with hlt hnil
    · rfl
    all_goals
      rw [List.getElem?_eq_none_iff.mpr (Nat.le_of_not_lt hlt)]
      cases hi : i - w.calls.length <;> rfl
  · cases nil <;> simp [World.work, CallStage.left]

theorem Inv.work_step (h : Inv cfg w) (hd : w.drain ≠ .none) (hs : w.step cfg a = some w') :
    w'.work < w.work ∨ Quiet w w' ∧ (∀ k, a ≠ .worker k) ∧ a ≠ .drain ∧
      ∀ i choice, a = .advanceCall i choice → (w.calls[i]?).any CallStage.counted = false := by
  have hclosed : w.closed = true := h.closed.mpr hd
  cases a with
  | submit try_ nil =>
    cases hs
    exact .inr ⟨.submit try_ nil, (by simp), (by simp), (by simp)⟩
  | advanceCall i choice =>
    obtain ⟨st, st', v, hst, hmove, rfl⟩ := callMove (fun _ => h.open_of_counted) hs
    have hsum := sum_map_set (y := st') CallStage.left hst
    cases hmove with
    | refused =>
      refine .inr ⟨⟨rfl, rfl, rfl, rfl, rfl, fun j => ?_, ?_⟩, (by simp), (by simp), ?_⟩
      · simp only [World.setCall, Parties.getElem?_set hst]
        split_ifs with hj
        · rw [hj, hst]
          rfl
        · rfl
      · simp only [World.work, World.setCall]
        simp only [CallStage.left] at hsum
        omega
      · rintro j choice ⟨⟩
        rw [hst]
        rfl
    | begunTry hopen | begun hopen | checked hopen => exact absurd (hclosed.symm.trans hopen) (by decide)
    | _ =>
      refine .inl ?_
      simp only [World.work, World.setCall, length_append, length_singleton]
      simp only [CallStage.left] at hsum
      omega
  | worker k =>
    refine .inl ?_
    cases workerMove hs with
    | @received job jobs hst hjobs =>
      have hsum := sum_map_set (y := .running job) left hst
      simp only [left] at hsum
      simp only [World.work, World.setWorker, hjobs, length_cons]
      omega
    | exited hst =>
      have hsum := sum_map_set (y := .exited) left hst
      simp only [left] at hsum
      simp only [work, setWorker]
      omega
    | finished hst =>
      have hsum := sum_map_set (y := .receive) left hst
      simp only [left] at hsum
      simp only [work, setWorker]
      omega
  | shutdown deadline =>
    cases hs
    exact .inr ⟨.shutdowns _, (by simp), (by simp), (by simp)⟩
  | advanceShutdown s =>
    obtain ⟨S, stage, v, -, hmove, rfl⟩ := shutdownMove hs
    cases hmove with
    | first _ hnone => exact absurd hnone hd
    | joined | returned => exact .inr ⟨.shutdowns _, (by simp), (by simp), (by simp)⟩
  | cancel s =>
    obtain ⟨S, stage, v, -, hmove, rfl⟩ := cancelMove hs
    cases hmove
    exact .inr ⟨.shutdowns _, (by simp), (by simp), (by simp)⟩
  | drain =>
    refine .inl ?_
    cases drainMove hs with
    | submitted hd | locked hd | closed hd | unlocked hd | drained hd =>
      simp only [work, hd, DrainStage.left]
      omega

/-! ## Who can go on -/

def Helpful (s : Nat) (w : World) : Party → Prop
  | .call i => ∃ st, w.calls[i]? = some st ∧ st.counted = true ∧ (st = .lock → w.sendMu = none)
  | .worker k => ∃ st, w.workers[k]? = some st ∧ st ≠ .exited ∧ (st = .receive → w.jobs ≠ [] ∨ w.jobsClosed = true)
  | .shutdown s' => s' = s ∧ w.drain = .drained
  | .drain =>
    match w.drain with
    | .waitSubmits => ∀ i : Nat, (w.calls[i]?).filter CallStage.counted = none
    | .lock => w.sendMu = none
    | .close | .unlock => True
    | .waitWorkers => ∀ st ∈ w.workers, st = .exited
    | .none | .drained => False

theorem Inv.counted_of_holder (h : Inv cfg w) (hmu : w.sendMu = some (.call i)) :
    ∃ st, w.calls[i]? = some st ∧ st.counted = true ∧ st ≠ .lock := by
  have hold := (h.holder i).mp hmu
  cases hst : w.calls[i]? with
  | none => simp [hst] at hold
  | some st =>
    rw [hst] at hold
    refine ⟨st, rfl, ?_⟩
    cases st with
    | check | trySend | unlock => exact ⟨rfl, nofun⟩
    | _ => cases hold

theorem Inv.helpful_of_counted (h : Inv cfg w) (s : Nat) {st : CallStage} (hst : w.calls[i]? = some st)
    (hc : st.counted = true) : ∃ p, Helpful s w p := by
  cases hmu : w.sendMu with
  | none => exact ⟨.call i, st, hst, hc, fun _ => hmu⟩
  | some holder =>
    cases holder with
    | call j =>
      obtain ⟨sj, hsj, hcj, hne⟩ := h.counted_of_holder hmu
      exact ⟨.call j, sj, hsj, hcj, fun hl => absurd hl hne⟩
    | drain =>
      have hdrain := h.drainer.mp hmu
      rcases h.counted i st hst hc with hd | hd <;> simp [hd] at hdrain

theorem Inv.exists_helpful (h : Inv cfg w) (s : Nat) (hd : w.drain ≠ .none) : ∃ p, Helpful s w p := by
  by_cases hcounted : ∃ (i : Nat) (st : CallStage), w.calls[i]? = some st ∧ st.counted = true
  · obtain ⟨i, st, hst, hc⟩ := hcounted
    exact h.helpful_of_counted s hst hc
  cases hdrain : w.drain with
  | none => exact absurd hdrain hd
  | waitSubmits =>
    refine ⟨.drain, ?_⟩
    simp only [Helpful, hdrain, filter_eq_none_iff]
    exact fun i st hst hc => hcounted ⟨i, st, hst, hc⟩
  | lock =>
    cases hmu : w.sendMu with
    | none => exact ⟨.drain, by simp only [Helpful, hdrain, hmu]⟩
    | some holder =>
      cases holder with
      | call j =>
        obtain ⟨sj, hsj, hcj, -⟩ := h.counted_of_holder hmu
        exact absurd ⟨j, sj, hsj, hcj⟩ hcounted
      | drain => simpa [hdrain] using h.drainer.mp hmu
  | close | unlock => exact ⟨.drain, by simp only [Helpful, hdrain]⟩
  | waitWorkers =>
    have hjobs : w.jobsClosed = true := h.jobsClosed.mpr (by simp [hdrain])
    by_cases hall : ∀ st ∈ w.workers, st = .exited
    · exact ⟨.drain, by simpa only [Helpful, hdrain] using hall⟩
    · obtain ⟨st, hmem, hne⟩ : ∃ st ∈ w.workers, st ≠ .exited := by simpa using hall
      obtain ⟨k, hst⟩ := mem_iff_getElem?.mp hmem
      exact ⟨.worker k, st, hst, hne, fun _ => .inr hjobs⟩
  | drained => exact ⟨.shutdown s, rfl, hdrain⟩

theorem Inv.enabled_of_helpful (h : Inv cfg w) {S : Shutdown} (hS : w.shutdowns[s]? = some S)
    (hstage : S.stage = .select) (hd : w.drain ≠ .none) {p : Party} (hp : Helpful s w p) :
    ∃ a, p.acts a ∧ w.step cfg a ≠ none := by
  cases p with
  | call i =>
    obtain ⟨st, hst, hc, hlock⟩ := hp
    refine ⟨.advanceCall i .quit, ⟨_, rfl⟩, ?_⟩
    cases st with
    | «begin» try_ => cases hc
    | select => simp [World.step, World.advanceCall, hst, h.closed.mpr hd]
    | lock => simp [World.step, World.advanceCall, hst, hlock rfl]
    | returned ok => cases hc
    | _ => simp [World.step, World.advanceCall, hst]
  | worker k =>
    obtain ⟨st, hst, hne, hready⟩ := hp
    refine ⟨_, rfl, ?_⟩
    cases st with
    | receive =>
      cases hjobs : w.jobs with
      | nil => simp [World.step, World.advanceWorker, hst, hjobs, (hready rfl).resolve_left (fun hj => hj hjobs)]
      | cons job jobs => simp [World.step, World.advanceWorker, hst, hjobs]
    | running job => simp [World.step, World.advanceWorker, hst]
    | exited => exact absurd rfl hne
  | shutdown s' =>
    obtain ⟨rfl, hdrained⟩ := hp
    exact ⟨_, rfl, by simp [World.step, World.advanceShutdown, hS, hstage, hdrained]⟩
  | drain =>
    refine ⟨_, rfl, ?_⟩
    simp only [Helpful] at hp
    split at hp
    case h_1 hdrain =>
      have hany : w.calls.any CallStage.counted = false := by
        refine any_eq_false.mpr fun st hmem hc => ?_
        obtain ⟨i, hst⟩ := mem_iff_getElem?.mp hmem
        exact filter_eq_none_iff.mp (hp i) st hst hc
      simp [World.step, World.advanceDrain, hdrain, hany]
    case h_2 hdrain => simp [World.step, World.advanceDrain, hdrain, hp]
    case h_3 hdrain | h_4 hdrain => simp [World.step, World.advanceDrain, hdrain]
    case h_5 hdrain => simpa [World.step, World.advanceDrain, hdrain] using hp
    all_goals exact hp.elim

theorem Helpful.of_quiet {p : Party} (hp : Helpful s w p) (h : Quiet w w') : Helpful s w' p := by
  cases p with
  | call i =>
    obtain ⟨st, hst, hc, hlock⟩ := hp
    have hfilter := h.calls i
    rw [hst, filter_some_pos hc] at hfilter
    exact ⟨st, (filter_eq_some_iff.mp hfilter).1, hc, fun hl => h.sendMu.trans (hlock hl)⟩
  | worker k => simpa only [Helpful, h.workers, h.jobs, h.jobsClosed] using hp
  | shutdown s' => exact ⟨hp.1, h.drain.trans hp.2⟩
  | drain => simpa only [Helpful, h.drain, h.calls, h.sendMu, h.workers] using hp

/-! ## A shutdown without deadline -/

theorem ShutdownMove.set {s' : Nat} {S S' : Shutdown} {stage : ShutdownStage} {v : World}
    (hmove : ShutdownMove w S' a stage v) (hS' : w.shutdowns[s']? = some S') (hS : w.shutdowns[s]? = some S) :
    s ≠ s' ∧ (v.setShutdown s' stage S').shutdowns[s]? = some S ∨
      s = s' ∧ S = S' ∧ (v.setShutdown s' stage S').shutdowns[s]? = some { S with stage } := by
  have hv : v.shutdowns = w.shutdowns := by cases hmove <;> rfl
  by_cases hs : s = s'
  · subst hs
    obtain rfl : S = S' := some.inj (hS.symm.trans hS')
    refine .inr ⟨rfl, rfl, ?_⟩
    rw [setShutdown, hv]
    exact List.getElem?_set_self (List.getElem?_eq_some_iff.mp hS).1
  · refine .inl ⟨hs, ?_⟩
    rw [setShutdown, hv]
    exact (List.getElem?_set_ne (Ne.symm hs)).trans hS

theorem Inv.shutdown_step (h : Inv cfg w) {stage : ShutdownStage} (hS : w.shutdowns[s]? = some ⟨false, stage⟩)
    (hs : w.step cfg a = some w') :
    a ≠ .advanceShutdown s ∧ w'.shutdowns[s]? = some ⟨false, stage⟩ ∧ (w.drain ≠ .none → w'.drain ≠ .none) ∨
      stage = .once ∧ w'.shutdowns[s]? = some ⟨false, .select⟩ ∧ w'.drain ≠ .none ∨
      stage = .select ∧ w'.shutdowns[s]? = some ⟨false, .returned true⟩ := by
  cases a with
  | submit try_ nil =>
    cases hs
    exact .inl ⟨nofun, hS, id⟩
  | advanceCall i choice =>
    obtain ⟨st, st', v, -, hmove, rfl⟩ := callMove (fun _ => h.open_of_counted) hs
    cases hmove <;> exact .inl ⟨nofun, hS, id⟩
  | worker k => cases workerMove hs <;> exact .inl ⟨nofun, hS, id⟩
  | shutdown deadline =>
    cases hs
    exact .inl ⟨nofun, (List.getElem?_append_left (List.getElem?_eq_some_iff.mp hS).1).trans hS, id⟩
  | advanceShutdown s' =>
    obtain ⟨S', stage', v, hS', hmove, rfl⟩ := shutdownMove hs
    rcases hmove.set hS' hS with ⟨hne, hget⟩ | ⟨rfl, rfl, hget⟩
    · refine .inl ⟨by simpa using Ne.symm hne, hget, ?_⟩
      cases hmove with
      | first => exact fun _ => nofun
      | _ => exact id
    · cases hmove with
      | first hstage _ => exact .inr (.inl ⟨hstage, hget, nofun⟩)
      | joined hstage hd => exact .inr (.inl ⟨hstage, hget, hd⟩)
      | returned hstage _ => exact .inr (.inr ⟨hstage, hget⟩)
  | cancel s' =>
    obtain ⟨S', stage', v, hS', hmove, rfl⟩ := cancelMove hs
    rcases hmove.set hS' hS with ⟨hne, hget⟩ | ⟨rfl, rfl, hget⟩
    · cases hmove
      exact .inl ⟨nofun, hget, id⟩
    · cases hmove with
      | cancelled hdeadline => cases hdeadline
  | drain =>
    cases drainMove hs with
    | submitted | locked | closed | unlocked | drained => exact .inl ⟨nofun, hS, fun _ => nofun⟩

def World.awaits (w : World) (s : Nat) : Prop := w.shutdowns[s]? = some ⟨false, .select⟩ ∧ w.drain ≠ .none

theorem eventually_awaits (hfair : t.Fair (Party.shutdown s).acts)
    (hS : (t.state n).shutdowns[s]? = some ⟨false, .once⟩) : ∃ m, n ≤ m ∧ (t.state m).awaits s := by
  refine Machine.Trace.eventually (ι := Unit) (A := fun _ => (Party.shutdown s).acts)
    (P := fun v => v.shutdowns[s]? = some ⟨false, .once⟩) (Q := fun v => v.awaits s) (H := fun _ _ => True)
    (fun _ => 0) (fun _ => hfair) (fun _ _ _ => ⟨(), trivial⟩) ?_ ?_ hS
  · intro v _ hr hS _
    refine ⟨.advanceShutdown s, rfl, (machine_step_ne_none (inv_of_reachable hr)).mpr ?_⟩
    simp only [step, advanceShutdown, hS]
    split_ifs <;> nofun
  · intro v a v' _ hr hS _ hs
    rcases (inv_of_reachable hr).shutdown_step hS (step_of_machine hs) with ⟨ha, hS', -⟩ | ⟨-, hS', hd⟩ | ⟨hstage, -⟩
    · exact .inr ⟨hS', .inr ⟨rfl, trivial, ha⟩⟩
    · exact .inl ⟨hS', hd⟩
    · cases hstage

theorem eventually_returns_of_awaits (hfair : ∀ p : Party, t.Fair p.acts)
    (hS : (t.state n).awaits s) : ∃ m, n ≤ m ∧ (t.state m).shutdowns[s]? = some ⟨false, .returned true⟩ := by
  refine Machine.Trace.eventually (A := Party.acts) (P := fun v => v.awaits s)
    (Q := fun v => v.shutdowns[s]? = some ⟨false, .returned true⟩) (H := fun p v => Helpful s v p)
    work hfair ?_ ?_ ?_ hS
  · exact fun v hr hP => (inv_of_reachable hr).exists_helpful s hP.2
  · intro v p hr hP hp
    have hinv := inv_of_reachable hr
    obtain ⟨a, ha, hs⟩ := hinv.enabled_of_helpful hP.1 rfl hP.2 hp
    exact ⟨a, ha, (machine_step_ne_none hinv).mpr hs⟩
  · intro v a v' p hr hP hp hs
    have hinv := inv_of_reachable hr
    have hs := step_of_machine hs
    rcases hinv.shutdown_step hP.1 hs with ⟨ha, hS', hd⟩ | ⟨hstage, -⟩ | ⟨-, hret⟩
    · refine .inr ⟨⟨hS', hd hP.2⟩, ?_⟩
      rcases hinv.work_step hP.2 hs with hlt | ⟨hquiet, hworker, hdrain, hcall⟩
      · exact .inl hlt
      · refine .inr ⟨hquiet.work, hp.of_quiet hquiet, fun hacts => ?_⟩
        cases p with
        | call i =>
          obtain ⟨choice, rfl⟩ := hacts
          obtain ⟨st, hst, hc, -⟩ := hp
          have hnot := hcall i choice rfl
          rw [hst] at hnot
          exact absurd (hc.symm.trans hnot) (by decide)
        | worker k => exact hworker k hacts
        | shutdown s' => exact ha (hp.1 ▸ hacts)
        | drain => exact hdrain hacts
    · cases hstage
    · exact .inl hret

theorem eventually_returns (hfair : ∀ p : Party, t.Fair p.acts)
    (hS : (t.state n).shutdowns[s]? = some ⟨false, .once⟩) :
    ∃ m, n ≤ m ∧ (t.state m).shutdowns[s]? = some ⟨false, .returned true⟩ := by
  obtain ⟨m, hm, hawaits⟩ := eventually_awaits (hfair (.shutdown s)) hS
  obtain ⟨k, hk, hret⟩ := eventually_returns_of_awaits hfair hawaits
  exact ⟨k, Nat.le_trans hm hk, hret⟩

end

/-! Safety and drain of the pool. -/

open Lib List World

variable {cfg : Config} {w : World}

/-- Each accepted job is in the channel or has been run, once. -/
theorem Inv.count_of_accepted (h : Inv cfg w) {i : Nat} (hi : w.calls[i]? = some (.returned true)) :
    w.jobs.count i + w.ran.count i = 1 := by
  have hsent := h.sent i
  rw [hi] at hsent
  exact hsent

theorem Inv.count_of_refused (h : Inv cfg w) {i : Nat} (hi : w.calls[i]? = some (.returned false)) :
    w.jobs.count i + w.ran.count i = 0 := by
  have hsent := h.sent i
  rw [hi] at hsent
  exact hsent

theorem Inv.finished_of_returned (h : Inv cfg w) {S : Shutdown} (hS : S ∈ w.shutdowns) (hret : S.stage = .returned true)
    {i : Nat} (hi : w.calls[i]? = some (.returned true)) : w.finished.count i = 1 := by
  have hdrained := h.returned S hS hret
  have hexited := h.drained hdrained
  have hlen : 0 < w.workers.length := h.workers ▸ cfg.workers_pos
  have hjobs : w.jobs = [] := by
    refine (h.exited ?_).2
    have hmem := getElem_mem hlen
    rwa [hexited _ hmem] at hmem
  have hrunning : w.workers.count (.running i) = 0 :=
    count_eq_zero.mpr fun hmem => absurd (hexited _ hmem) nofun
  have hsent := h.count_of_accepted hi
  have hran := h.ran i
  rw [hjobs, count_nil] at hsent
  omega

theorem Inv.count_ran_le (h : Inv cfg w) (i : Nat) : w.ran.count i ≤ 1 := by
  have hsent := h.sent i
  split_ifs at hsent <;> omega

/-- In a fair run jobs terminate: a worker that runs one goes on. -/
theorem pool_safe_and_drains (cfg : Config) : (∀ w, (machine cfg).Reachable w →
      w.panicked = false ∧ (∀ i, w.ran.count i ≤ 1) ∧
      (∀ i : Nat, w.calls[i]? = some (.returned true) → w.jobs.count i + w.ran.count i = 1) ∧
      (∀ i : Nat, w.calls[i]? = some (.returned false) → i ∉ w.jobs ∧ i ∉ w.ran) ∧
      ∀ S ∈ w.shutdowns, S.stage = .returned true →
        ∀ i : Nat, w.calls[i]? = some (.returned true) → w.finished.count i = 1) ∧
    ∀ t : (machine cfg).Trace, (∀ p : Party, t.Fair p.acts) →
      (∀ n i : Nat, (t.state n).calls[i]? = some (.returned true) → ∃ m, n ≤ m ∧ (t.state m).ran.count i = 1) ∧
      ∀ n, t.act n = some (.shutdown false) →
        ∃ m, n < m ∧ (t.state m).shutdowns[(t.state n).shutdowns.length]? = some ⟨false, .returned true⟩ := by
  refine ⟨fun w hr => ?_, fun t hfair => ⟨fun n i hi => ?_, fun n hact => ?_⟩⟩
  · have hinv := inv_of_reachable hr
    refine ⟨hinv.panicked, hinv.count_ran_le, fun i => hinv.count_of_accepted, fun i hi => ?_,
      fun S hS hret i => hinv.finished_of_returned hS hret⟩
    have hzero := hinv.count_of_refused hi
    exact ⟨count_eq_zero.mp (by omega), count_eq_zero.mp (by omega)⟩
  · have hinv := inv_of_reachable (t.reachable n)
    have hone := hinv.count_of_accepted hi
    by_cases hjobs : i ∈ (t.state n).jobs
    · obtain ⟨m, hm, hran⟩ := eventually_runs (hfair (.worker 0)) hjobs
      have hle := (inv_of_reachable (t.reachable m)).count_ran_le i
      have hpos := count_pos_iff.mpr hran
      exact ⟨m, hm, by omega⟩
    · have hzero := count_eq_zero.mpr hjobs
      exact ⟨n, Nat.le_refl n, by omega⟩
  · have hnew : (t.state (n + 1)).shutdowns[(t.state n).shutdowns.length]? = some ⟨false, .once⟩ := by
      rw [← Option.some.inj (step_of_machine (t.step n _ hact))]
      exact List.getElem?_concat_length
    obtain ⟨m, hm, hret⟩ := eventually_returns hfair hnew
    exact ⟨m, hm, hret⟩

def sampleConfig : Config := ⟨1, 1, Nat.one_pos, Nat.one_pos⟩

/-- A job is accepted, a second refused after the shutdown has begun, and the pool drains. -/
def sampleRun : List Action :=
  [.submit false false, .advanceCall 0 .send, .advanceCall 0 .send, .advanceCall 0 .send, .submit true false,
    .shutdown false, .advanceShutdown 0, .advanceCall 1 .send, .worker 0, .worker 0, .drain, .drain, .drain, .drain,
    .worker 0, .drain, .advanceShutdown 0]

def sampleWorld : World := ((machine sampleConfig).run (initial sampleConfig) sampleRun).get (by decide +kernel)

theorem run_sampleRun : (machine sampleConfig).run (initial sampleConfig) sampleRun = some sampleWorld :=
  (Option.some_get _).symm

def sampleTrace : (machine sampleConfig).Trace := .ofRun rfl run_sampleRun

theorem sampleTrace_fair (p : Party) : sampleTrace.Fair p.acts := by
  refine Machine.Trace.ofRun_fair rfl run_sampleRun fun a ha => ?_
  have hcalls : sampleWorld.calls = [.returned true, .returned false] := by decide +kernel
  have hworkers : sampleWorld.workers = [.exited] := by decide +kernel
  have hshutdowns : sampleWorld.shutdowns = [⟨false, .returned true⟩] := by decide +kernel
  have hdrain : sampleWorld.drain = .drained := by decide +kernel
  have hstep : sampleWorld.step sampleConfig a = none := by
    cases p with
    | call i =>
      obtain ⟨choice, rfl⟩ := ha
      rcases i with _ | _ | i <;> simp [step, advanceCall, hcalls]
    | worker k =>
      cases ha
      cases k <;> simp [step, advanceWorker, hworkers]
    | shutdown s =>
      cases ha
      cases s <;> simp [step, advanceShutdown, hshutdowns]
    | drain =>
      cases ha
      simp [step, advanceDrain, hdrain]
  simp [machine, hstep]

theorem pool_safe_and_drains_sample :
    sampleTrace.act 5 = some (.shutdown false) ∧ (sampleTrace.state 4).calls[0]? = some (.returned true) ∧
      ∃ m, 5 < m ∧ (sampleTrace.state m).shutdowns[(sampleTrace.state 5).shutdowns.length]? =
        some ⟨false, .returned true⟩ :=
  ⟨rfl, by decide +kernel, ((pool_safe_and_drains sampleConfig).2 sampleTrace sampleTrace_fair).2 5 rfl⟩

end IbexHarness.AsyncPool
