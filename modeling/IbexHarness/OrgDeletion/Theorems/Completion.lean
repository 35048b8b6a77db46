import IbexHarness.OrgDeletion.Lemmas.Completion
import IbexHarness.OrgDeletion.Theorems.Holds

/-! The message is published before the job is committed, and `running` cannot be claimed again. -/

namespace IbexHarness.OrgDeletion

open Lib Option World

variable {S : Settings} {w w' : World} {u r n : Nat}

/-- The request `r` is accepted at the time `n`. From then on there is no hold; the stores are in reach, the broker
delivers, workers stop dying with the job at some time, and no statement of its tasks fails. -/
structure Promised (r n : Nat) (t : (machine S).Trace) : Prop where
  accepted : ((t.state n).requests r).stage = .cancel ∧ t.act n = some (.advanceRequest r)
  holds : ∀ m, n < m → (t.state m).hold = false
  stores : ∀ s, S.deployed s = true → S.configured s = true
  broker : t.Fair (· = .deliver r)
  crashes : ∃ k, ∀ m u, k ≤ m → t.act m = some (.crash u) → ((t.state m).tasks u).job ≠ r
  errors : ∀ m u, t.act m = some (.error u) → ((t.state m).tasks u).job ≠ r
  scheduled : Scheduled t

section
variable {t : (machine S).Trace} (h : Promised r n t)
  (hsteps : ∀ m a, t.act m = some a → claimsInTime r (t.state m) a = true)

include h hsteps in
theorem Promised.ahead (m : Nat) : Ahead r (t.state m) := by
  refine t.always_from (n := 0) (fun _ hpub => ?_) (fun k a _ hk hact => ?_) (Nat.zero_le m)
  · obtain ⟨-, -, -, -, -, -, -, hrequests, -⟩ := t.init
    simp [hrequests] at hpub
  · exact hk.step (jobInv_state t k) (h.scheduled.owned r k) (hsteps k a hact)
      (fun u ha => h.errors k u (ha ▸ hact)) (step_state t hact)

include h hsteps in
theorem Promised.going {m : Nat} (hm : n < m) : Going r (t.state m) := by
  obtain ⟨hstage, hact⟩ := h.accepted
  refine t.always_from (n := n + 1) ?_ (fun k a hk hgoing hact => ?_) hm
  · exact (h.ahead hsteps n).accepted (jobInv_state t n) (h.scheduled.owned r n)
      (published_of_reachable (t.reachable n) r) hstage (step_state t hact)
  · exact hgoing.step (inv_state t k) (jobInv_state t k) (h.scheduled.owned r k) (h.holds k hk) h.stores
      (hsteps k a hact) (fun u ha => h.errors k u (ha ▸ hact)) (step_state t hact)

/-- A message with the broker is delivered. -/
theorem Promised.delivered (h : Promised r n t) {m : Nat} (hqueue : r ∈ (t.state m).queue) :
    ∃ m', m ≤ m' ∧ ∃ u, ((t.state m').tasks u).job = r ∧ (t.state m').active u = true := by
  refine Machine.Trace.ensures (P := fun w => r ∈ w.queue) (Q := fun w => ∃ u, (w.tasks u).job = r ∧ w.active u = true)
    h.broker (fun k _ hk => ⟨_, rfl, ?_⟩) (fun k a _ hk hact => ?_) hqueue
  · simp [machine, step, hk]
  · by_cases ha : a = .deliver r
    · subst ha
      have htask := tasks_deliver (step_state t hact)
      exact .inl ⟨_, by rw [htask]; rfl, by simp [active, htask, Task.start]⟩
    · exact .inr ⟨(queue_step (step_state t hact) hk).resolve_right ha, ha⟩

include h hsteps in
/-- From the last crash on, a delivered task or another one claims the job. -/
theorem Promised.claimed {k m : Nat} (hcrash : ∀ m u, k ≤ m → t.act m = some (.crash u) → ((t.state m).tasks u).job ≠ r)
    (hk : k ≤ m) (hm : n < m) (hjob : ((t.state m).tasks u).job = r) (hclaim : ((t.state m).tasks u).stage = .claim)
    (hrow : (t.state m).jobs.rows r = some .pending) :
    ∃ m', m ≤ m' ∧ ((t.state m').jobs.rows r = some .succeeded ∨ Busy r (t.state m')) := by
  by_cases hbusy : Busy r (t.state m)
  · exact ⟨m, Nat.le_refl m, .inr hbusy⟩
  refine Machine.Trace.ensures
    (P := fun w => (w.tasks u).job = r ∧ (w.tasks u).stage = .claim ∧ w.jobs.rows r = some .pending ∧ ¬Busy r w)
    (Q := fun w => w.jobs.rows r = some .succeeded ∨ Busy r w) (h.scheduled.tasks u) (fun i _ hi => ⟨_, rfl, ?_⟩)
    (fun i a hi hp hact => ?_) ⟨hjob, hclaim, hrow, hbusy⟩
  · exact claim_ne_none (inv_state t i) (jobInv_state t i) hi.2.1 (hi.1.symm ▸ hi.2.2.1) (hi.1.symm ▸ hi.2.2.2)
  · obtain ⟨hjob, hclaim, hrow, hbusy⟩ := hp
    have hs := step_state t hact
    have hgoing := h.going hsteps (Nat.lt_succ_of_lt (Nat.lt_of_lt_of_le hm hi))
    by_cases hq : (t.state (i + 1)).jobs.rows r = some .succeeded ∨ Busy r (t.state (i + 1))
    · exact .inl hq
    obtain ⟨hnot, hbusy'⟩ := not_or.mp hq
    have hrow' := hgoing.row.resolve_right (not_or.mpr ⟨fun hrunning => hbusy' (hgoing.running hrunning), hnot⟩)
    have ha : a ≠ .advance u := by
      rintro rfl
      rcases claim_advance (jobInv_state t i) hclaim hs with ⟨hlock, -⟩ | ⟨-, hdone⟩
      · exact hbusy' ⟨u, (job_step hs (.inl rfl)).trans hjob, hlock⟩
      · exact hdone (hjob.symm ▸ hrow)
    refine .inr ⟨?_, ha⟩
    rcases tasks_step hs u with hsame | (ha' | rfl | rfl) | ⟨rfl, -⟩
    · exact ⟨by rw [hsame, hjob], by rw [hsame, hclaim], hrow', hbusy'⟩
    · exact absurd ha' ha
    · exact absurd hjob (h.errors i u hact)
    · exact absurd hjob (hcrash i u (Nat.le_trans hk hi) hact)
    · simp [(jobInv_state t i).tasks _ (Nat.le_refl _), Task.idle] at hclaim

include h hsteps in
/-- From the last crash on, a task at work completes. -/
theorem Promised.finished {k m : Nat}
    (hcrash : ∀ m u, k ≤ m → t.act m = some (.crash u) → ((t.state m).tasks u).job ≠ r)
    (hk : k ≤ m) (hm : n < m) (hbusy : Busy r (t.state m)) :
    ∃ m', m ≤ m' ∧ (t.state m').jobs.rows r = some .succeeded := by
  obtain ⟨u, hbusy⟩ := hbusy
  refine h.scheduled.task_eventually (P := fun T => T.job = r ∧ T.stage.resting = false)
    (Q := fun w => w.jobs.rows r = some .succeeded) (fun T => T.stage.weight) (fun _ => And.right)
    (fun i a hi hp hact ha => ?_) hbusy
  obtain ⟨hjob, hbusy⟩ := hp
  have hs := step_state t hact
  have hi' := Nat.lt_of_lt_of_le hm hi
  have hjob' := (job_step hs ha).trans hjob
  rcases ha with rfl | rfl | rfl
  · rcases (h.going hsteps hi').advance (inv_state t i) (jobInv_state t i) (h.holds i hi') h.stores hjob hbusy hs with
      ⟨-, hdone⟩ | ⟨hbusy', -⟩
    · exact .inl hdone
    · exact .inr ⟨⟨hjob', hbusy'⟩, weight_advance hs⟩
  · exact absurd hjob (h.errors i u hact)
  · exact absurd hjob (hcrash i u (Nat.le_trans hk hi) hact)

end

/-- An accepted deletion completes, if no task claims the job before it is committed and no worker dies with it between
the two transactions. -/
theorem accepted_deletion_succeeds {t : (machine S).Trace} (h : Promised r n t)
    (hsteps : ∀ m a, t.act m = some a → claimsInTime r (t.state m) a = true) :
    ∃ m, n < m ∧ (t.state m).jobs.rows r = some .succeeded := by
  obtain ⟨k, hcrash⟩ := h.crashes
  have hwork : ∀ m, k ≤ m → n < m → Busy r (t.state m) → ∃ m', n < m' ∧ (t.state m').jobs.rows r = some .succeeded := by
    intro m hk hm hbusy
    obtain ⟨m', hm', hdone⟩ := h.finished hsteps hcrash hk hm hbusy
    exact ⟨m', Nat.lt_of_lt_of_le hm hm', hdone⟩
  have htask : ∀ m u, k ≤ m → n < m → ((t.state m).tasks u).job = r → (t.state m).active u = true →
      ∃ m', n < m' ∧ (t.state m').jobs.rows r = some .succeeded := by
    intro m u hk hm hjob hactive
    have hgoing := h.going hsteps hm
    rcases active_cases hactive with hclaim | hbusy
    · rcases hgoing.row with hrow | hrow | hrow
      · obtain ⟨m', hm', hdone | hbusy⟩ := h.claimed hsteps hcrash hk hm hjob hclaim hrow
        · exact ⟨m', Nat.lt_of_lt_of_le hm hm', hdone⟩
        · exact hwork m' (Nat.le_trans hk hm') (Nat.lt_of_lt_of_le hm hm') hbusy
      · exact hwork m hk hm (hgoing.running hrow)
      · exact ⟨m, hm, hrow⟩
    · exact hwork m hk hm ⟨u, hjob, hbusy⟩
  have hk : k ≤ max (n + 1) k := Nat.le_max_right _ _
  have hm : n < max (n + 1) k := Nat.le_max_left (n + 1) k
  have hgoing := h.going hsteps hm
  rcases hgoing.row with hrow | hrow | hrow
  · rcases hgoing.pending hrow with hqueue | ⟨u, hjob, hactive⟩
    · obtain ⟨m', hm', u, hjob, hactive⟩ := h.delivered hqueue
      exact htask m' u (Nat.le_trans hk hm') (Nat.lt_of_lt_of_le hm hm') hjob hactive
    · exact htask _ u hk hm hjob hactive
  · exact hwork _ hk hm (hgoing.running hrow)
  · exact ⟨_, hm, hrow⟩

/-! ## Runs that end -/

/-- A run without database errors, after which nobody has anything to do. -/
theorem Scheduled.ofRun {w₀ : World} {as : List Action} (hinit : (machine S).init w₀)
    (hrun : (machine S).run w₀ as = some w)
    (htasks : ∀ u, u < w.nextTask → (w.tasks u).stage = .done) (hholds : w.nextHold = 0) (hwrites : w.nextWrite = 0)
    (herrors : ∀ u, .error u ∉ as) : Scheduled (.ofRun hinit hrun) := by
  have hreachable : (machine S).Reachable w := ⟨w₀, hinit, as, hrun⟩
  have hrest : ∀ u, (w.tasks u).stage = .idle ∨ (w.tasks u).stage = .done := by
    intro u
    by_cases hu : u < w.nextTask
    · exact .inr (htasks u hu)
    · exact .inl (by rw [(jobInv_of_reachable hreachable).tasks u (Nat.le_of_not_lt hu)]; rfl)
  have hfresh := (lockInv_of_reachable hreachable).1
  refine ⟨fun u => ?_, fun i => ?_, fun i => ?_, fun u n hlocks => ?_, fun n u hact => ?_⟩
  · refine Machine.Trace.ofRun_fair hinit hrun ?_
    rintro _ rfl
    rcases hrest u with h | h <;> simp [machine, step, Task.statement, h]
  · refine Machine.Trace.ofRun_fair hinit hrun ?_
    rintro _ rfl
    simp [machine, step, advanceHold, hfresh.holds i (hholds ▸ Nat.zero_le i)]
  · refine Machine.Trace.ofRun_fair hinit hrun ?_
    rintro _ rfl
    simp [machine, step, advanceWrite, hfresh.writes i (hwrites ▸ Nat.zero_le i)]
  · have hlast := hlocks (max n as.length) (Nat.le_max_left _ _)
    rw [Machine.Trace.ofRun_state hinit hrun (Nat.le_max_right _ _)] at hlast
    rcases hrest u with h | h <;> simp [h, TaskStage.locks] at hlast
  · exact absurd (Machine.Trace.ofRun_act hinit hrun hact).2 (herrors u)

/-- A run of the samples in which a request is accepted. -/
theorem Promised.ofRun {as : List Action} (hrun : (machine sampleSettings).run sampleWorld as = some w)
    (haccepted : (((Machine.Trace.ofRun sampleWorld_initial hrun).state n).requests r).stage = .cancel ∧
      as[n]? = some (.advanceRequest r))
    (hhold : ∀ m, m < as.length + 1 → ((Machine.Trace.ofRun sampleWorld_initial hrun).state m).hold = false)
    (hqueue : w.queue = []) (hscheduled : Scheduled (.ofRun sampleWorld_initial hrun)) (herrors : ∀ u, .error u ∉ as) :
    Promised r n (.ofRun sampleWorld_initial hrun) where
  accepted := haccepted
  holds m _ := Machine.Trace.ofRun_forall sampleWorld_initial hrun (P := fun w => w.hold = false) hhold m
  stores _ _ := rfl
  broker := by
    refine Machine.Trace.ofRun_fair sampleWorld_initial hrun ?_
    rintro _ rfl
    simp [machine, step, hqueue]
  crashes := by
    refine ⟨as.length, fun m u hm hact => ?_⟩
    exact absurd (Machine.Trace.ofRun_act sampleWorld_initial hrun hact).1 (Nat.not_lt.mpr hm)
  errors m u hact := absurd (Machine.Trace.ofRun_act sampleWorld_initial hrun hact).2 (herrors u)
  scheduled := hscheduled

/-- The worker dies in the first transaction; the message is delivered again and the next task completes. -/
def redeliveredRun : List Action :=
  acceptedRun ++ List.replicate 3 (.advance 0) ++ [.crash 0, .deliver 0] ++ List.replicate 26 (.advance 1)

def completedWorld : World := ((machine sampleSettings).run sampleWorld redeliveredRun).get (by decide +kernel)

theorem run_redeliveredRun : (machine sampleSettings).run sampleWorld redeliveredRun = some completedWorld :=
  (some_get _).symm

theorem accepted_deletion_succeeds_sample : Promised 0 7 (.ofRun sampleWorld_initial run_redeliveredRun) ∧
      ∃ m, 7 < m ∧
        ((Machine.Trace.ofRun sampleWorld_initial run_redeliveredRun).state m).jobs.rows 0 = some .succeeded := by
  have herrors : ∀ u, .error u ∉ redeliveredRun := by simp [redeliveredRun, acceptedRun, publishedRun]
  have hpromised : Promised 0 7 (.ofRun sampleWorld_initial run_redeliveredRun) :=
    .ofRun run_redeliveredRun (by decide +kernel) (by decide +kernel) (by decide +kernel)
      (.ofRun _ run_redeliveredRun (by decide +kernel) (by decide +kernel) (by decide +kernel) herrors) herrors
  have hchecked : ∀ m, m < redeliveredRun.length → (redeliveredRun[m]?).all
        (claimsInTime 0 ((Machine.Trace.ofRun sampleWorld_initial run_redeliveredRun).state m)) := by
    decide +kernel
  refine ⟨hpromised, accepted_deletion_succeeds hpromised fun m a hact => ?_⟩
  have hall := hchecked m (Machine.Trace.ofRun_act _ run_redeliveredRun hact).1
  have hact : redeliveredRun[m]? = some a := hact
  rwa [hact] at hall

/-- The task is delivered and runs before the API has committed the job. -/
def overtakenRun : List Action := publishedRun ++ [.deliver 0, .advance 0, .advanceRequest 0, .advanceRequest 0]

def overtakenWorld : World := ((machine sampleSettings).run sampleWorld overtakenRun).get (by decide +kernel)

theorem run_overtakenRun : (machine sampleSettings).run sampleWorld overtakenRun = some overtakenWorld :=
  (some_get _).symm

/-- The worker dies after the purge; the task that is delivered then finds the job `running`. -/
def abandonedRun : List Action := acceptedRun ++ List.replicate 9 (.advance 0) ++ [.crash 0, .deliver 0, .advance 1]

def abandonedWorld : World := ((machine sampleSettings).run sampleWorld abandonedRun).get (by decide +kernel)

theorem run_abandonedRun : (machine sampleSettings).run sampleWorld abandonedRun = some abandonedWorld :=
  (some_get _).symm

theorem accepted_deletions_lost :
    (∃ t : (machine sampleSettings).Trace, Promised 0 9 t ∧ ∀ m, (t.state m).jobs.rows 0 ≠ some .succeeded) ∧
      ∃ t : (machine sampleSettings).Trace, Promised 0 7 t ∧ ∀ m, (t.state m).jobs.rows 0 ≠ some .succeeded := by
  have herrors : ∀ u, .error u ∉ overtakenRun := by simp [overtakenRun, publishedRun]
  have herrors' : ∀ u, .error u ∉ abandonedRun := by simp [abandonedRun, acceptedRun, publishedRun]
  refine ⟨⟨.ofRun sampleWorld_initial run_overtakenRun, ?_, ?_⟩, ⟨.ofRun sampleWorld_initial run_abandonedRun, ?_, ?_⟩⟩
  · exact .ofRun run_overtakenRun (by decide +kernel) (by decide +kernel) (by decide +kernel)
      (.ofRun _ run_overtakenRun (by decide +kernel) (by decide +kernel) (by decide +kernel) herrors) herrors
  · exact Machine.Trace.ofRun_forall _ run_overtakenRun (P := fun w => w.jobs.rows 0 ≠ some .succeeded)
      (by decide +kernel)
  · exact .ofRun run_abandonedRun (by decide +kernel) (by decide +kernel) (by decide +kernel)
      (.ofRun _ run_abandonedRun (by decide +kernel) (by decide +kernel) (by decide +kernel) herrors') herrors'
  · exact Machine.Trace.ofRun_forall _ run_abandonedRun (P := fun w => w.jobs.rows 0 ≠ some .succeeded)
      (by decide +kernel)

/-- Whatever errors, crashes, holds and other parties it meets, a task at work ends. -/
theorem task_ends {t : (machine S).Trace} (h : Scheduled t) (hbusy : ((t.state n).tasks u).stage.resting = false) :
    ∃ m, n ≤ m ∧ ((t.state m).tasks u).stage = .done := by
  refine h.task_eventually (Q := fun w => (w.tasks u).stage = .done) Task.rank (fun _ => id)
    (fun i a _ hp hact ha => ?_) hbusy
  have hs := step_state t hact
  rcases ha with rfl | rfl | rfl
  · obtain ⟨st, hst, htask⟩ := tasks_advance hs
    have hlt := weight_after hst (t.state i).memories
    rw [htask]
    refine (((jobInv_state t i).steady u).after_cases hst hp _).imp_right fun ⟨hrest, hphase⟩ => ⟨hrest, ?_⟩
    grind [Task.rank]
  · obtain ⟨-, hs⟩ := of_ite_some hs
    have htask : (t.state (i + 1)).tasks u = ((t.state i).tasks u).raised none := by
      rw [← hs, raise_eq]
      exact Function.update_self _ _ _
    rw [htask]
    refine (raised_cases _ none).imp_right fun ⟨hne, hrest⟩ => ⟨hrest, ?_⟩
    have hle : (((t.state i).tasks u).raised none).stage.weight ≤ 3 := weight_raised
    grind [Task.rank, Task.raised, Task.ended]
  · exact .inl (stage_crash hs)

theorem task_ends_sample :
    ∃ m, 16 ≤ m ∧ (((Machine.Trace.ofRun sampleWorld_initial run_redeliveredRun).state m).tasks 1).stage = .done :=
  task_ends (.ofRun _ run_redeliveredRun (by decide +kernel) (by decide +kernel) (by decide +kernel)
    (by simp [redeliveredRun, acceptedRun, publishedRun])) (by decide +kernel)

end IbexHarness.OrgDeletion
