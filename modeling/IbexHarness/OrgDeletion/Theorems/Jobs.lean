import IbexHarness.OrgDeletion.Lemmas.Ownership
import IbexHarness.OrgDeletion.Theorems.Holds

/-! One task owns the job at a time as long as none fails in its first transaction. -/

namespace IbexHarness.OrgDeletion

open Lib Option World Function

section

variable {S : Settings} {w : World} {j : Nat}

/-- Unless the first transaction of one of its tasks fails, a job has one owner: one task has claimed it, only that one
changes its status, and a status that is an end stays. -/
theorem one_task_owns_job (hr : ((machine S).restrict (noEarlyError j)).Reachable w) :
    (∀ t t', (w.tasks t).job = j → (w.tasks t').job = j → (w.tasks t).claimed = true → (w.tasks t').claimed = true →
        t = t') ∧
      ∀ a w' status, (machine S).step w a = some w' → w.jobs.rows j = some status → w'.jobs.rows j ≠ some status →
        status ≠ .succeeded ∧ status ≠ .holdBlocked ∧
          ∃ t, a = .advance t ∧ (w.tasks t).job = j ∧ (w.tasks t).claimed = true := by
  have howned := owned_of_reachable hr
  have hinv := inv_of_reachable hr.of_restrict
  have hjobs := jobInv_of_reachable hr.of_restrict
  refine ⟨howned.unique, fun a w' status hs hrow hrow' => ?_⟩
  rcases step_committed hs with ⟨t, next, rfl, hst, rfl⟩ | ⟨r, status', -, hcreate⟩ | hsame
  · cases hl : (w.tasks t).jobs.lookup j with
    | none =>
      exact absurd hrow (by simpa [commit, setTask, RowStore.commitAll, RowStore.rollback, hl] using hrow')
    | some v =>
      obtain rfl := (hinv.tasks t).jobs j v hl
      have hrest : (w.tasks t).stage.resting = false := by
        rcases issued_of_statement hst with ⟨hs, -⟩ | ⟨hs, -⟩ <;> rw [hs] <;> rfl
      have hc := howned.active t rfl hrest
      have hold := howned.row_of_claimed rfl hc
      rw [hrow] at hold
      refine ⟨?_, ?_, t, rfl, rfl, hc⟩
      · rintro rfl
        simp at hold
      · rintro rfl
        simp at hold
  · by_cases hjr : j = r
    · subst hjr
      have hans := hjobs.answered j (by simp [hrow])
      rcases hcreate.stage with ⟨-, hstage, -⟩ | ⟨-, hstage, -⟩ <;> simp [hstage] at hans
    · exact absurd hrow (by rwa [hcreate.rows, update_of_ne hjr] at hrow')
  · exact absurd hrow (by rwa [hsame.rows] at hrow')

/-- A task owns the job, and the message has been delivered once more. -/
def ownedWorld : World :=
  (((machine sampleSettings).restrict (noEarlyError 0)).run sampleWorld
    (acceptedRun ++ List.replicate 25 (.advance 0) ++ [.redeliver 0, .deliver 0])).get (by decide +kernel)

theorem one_task_owns_job_sample :
    ∃ w', (machine sampleSettings).step ownedWorld (.advance 0) = some w' ∧ w'.jobs.rows 0 = some .succeeded ∧
      (ownedWorld.tasks 0).claimed = true ∧ (ownedWorld.tasks 1).claimed = false := by
  have hr : ((machine sampleSettings).restrict (noEarlyError 0)).Reachable ownedWorld :=
    ⟨_, sampleWorld_initial, _, (some_get _).symm⟩
  have hstep : ((machine sampleSettings).step ownedWorld (.advance 0)).map (·.jobs.rows 0) =
      some (some .succeeded) := by decide +kernel
  obtain ⟨w', hw', hrow⟩ := map_eq_some_iff.mp hstep
  have hrunning : ownedWorld.jobs.rows 0 = some .running := by decide +kernel
  obtain ⟨hunique, hholder⟩ := one_task_owns_job hr
  obtain ⟨-, -, t, ht, hjob, hc⟩ := hholder _ w' .running hw' hrunning (by simp [hrow])
  cases ht
  refine ⟨w', hw', hrow, hc, ?_⟩
  by_contra hc'
  exact absurd (hunique 0 1 hjob (by decide +kernel) hc (by simpa using hc')) (by decide)

/-- A second delivery fails at its claim, so the job is `failed` while the first task owns it; a third one claims it. -/
def sharedJobWorld : World :=
  ((machine sampleSettings).run sampleWorld (acceptedRun ++ List.replicate 9 (.advance 0) ++
    [.redeliver 0, .deliver 0, .error 1, .advance 1, .advance 1, .redeliver 0, .deliver 0, .advance 2])).get
      (by decide +kernel)

theorem two_tasks_own_job :
    (machine sampleSettings).Reachable sharedJobWorld ∧ (sharedJobWorld.tasks 0).job = (sharedJobWorld.tasks 2).job ∧
      (sharedJobWorld.tasks 0).claimed = true ∧ (sharedJobWorld.tasks 2).claimed = true :=
  ⟨⟨_, sampleWorld_initial, _, (some_get _).symm⟩, by decide +kernel, by decide +kernel, by decide +kernel⟩

end

section

variable {S : Settings} {w w' : World} {t : Nat}

/-- A job is marked failed only if its message is not published, and no message is published for a committed job. -/
def publishesInTime (w : World) : Action → Bool
  | .advanceRequest r => (w.requests r).stage ≠ .markFailed || !(w.requests r).published
  | .publish r => (w.jobs.rows r).isNone
  | _ => true

theorem JobInv.accepted_step (h : JobInv w) {a : Action} {r : Nat} (hs : w.step S a = some w')
    (hr : (w.requests r).stage = .accepted) : (w'.requests r).stage = .accepted := by
  rcases requests_step hs with hsame | ⟨r', R, hset, hstage, -⟩
  · rwa [hsame]
  · rw [hset]
    by_cases heq : r = r'
    · subst heq
      rw [update_self]
      refine hstage ?_ hr
      rintro rfl
      simp [h.requests w.nextRequest (Nat.le_refl _)] at hr
    · rwa [update_of_ne heq]

structure RefusalInv (w : World) : Prop where
  jobs : JobInv w
  rows : ∀ r, w.jobs.rows r ≠ none → (w.requests r).stage = .accepted ∨ (w.requests r).published = false
  purged : ∀ j ∈ w.purged, (w.requests j).stage = .accepted

theorem RefusalInv.initial (h : w.initial) : RefusalInv w := by
  refine ⟨.initial h, ?_, ?_⟩
  · simp [h.2.1]
  · simp [h.2.2.2.2.1]

/-- A purge is of a job that its request has committed, and whose message has been published. -/
theorem RefusalInv.accepted_of_purge (h : RefusalInv w) (hidle : (w.tasks t).stage ≠ .idle)
    (hp : (w.tasks t).purge ≠ none) : (w.requests (w.tasks t).job).stage = .accepted := by
  obtain ⟨v, hl⟩ := ne_none_iff_exists'.mp ((h.jobs.steady t).purge hp)
  have hpub := h.jobs.delivered t hidle
  refine (h.rows _ (h.jobs.drafts t _ v hl).2).resolve_right fun hnot => ?_
  exact absurd (hpub.symm.trans hnot) (by decide)

theorem RefusalInv.step (h : RefusalInv w) {a : Action} (hc : publishesInTime w a = true) (hs : w.step S a = some w') :
    RefusalInv w' := by
  have hkeep : ∀ r, w.jobs.rows r ≠ none → (w'.requests r).stage = .accepted ∨ (w'.requests r).published = false := by
    intro r hr
    rcases h.rows r hr with hstage | hpub
    · exact .inl (h.jobs.accepted_step hs hstage)
    · refine .inr (unpublished_step hs ?_ hpub)
      rintro rfl
      exact hr (by simpa [publishesInTime] using hc)
  refine ⟨h.jobs.step hs, fun r hr => ?_, fun j hj => ?_⟩
  · rcases step_committed hs with ⟨t, next, -, -, rfl⟩ | ⟨r', status, rfl, hcreate⟩ | hsame
    · exact hkeep r ((h.jobs.rows_commit t r).mp hr)
    · by_cases heq : r = r'
      · subst heq
        rcases hcreate.stage with ⟨-, -, hstage⟩ | ⟨-, hstage, -⟩
        · exact .inl hstage
        · refine .inr (unpublished_step hs nofun ?_)
          simpa [publishesInTime, hstage] using hc
      · exact hkeep r (by rwa [hcreate.rows, update_of_ne heq] at hr)
    · exact hkeep r (hsame.rows ▸ hr)
  · refine h.jobs.accepted_step hs ?_
    rcases step_committed hs with ⟨t, next, -, hst, rfl⟩ | ⟨r', status, -, hcreate⟩ | hsame
    · by_cases hp : (w.tasks t).purge = none
      · exact h.purged j (by simpa [commit, setTask, hp] using hj)
      · have hj : j = (w.tasks t).job ∨ j ∈ w.purged := by
          simpa [commit, setTask, isSome_iff_ne_none, hp] using hj
        rcases hj with rfl | hj
        · exact h.accepted_of_purge (stage_ne_idle hst) hp
        · exact h.purged j hj
    · exact h.purged j (hcreate.purged ▸ hj)
    · exact h.purged j (hsame.purged ▸ hj)

/-- Refused requests purge nothing, as long as no message is published for a job that is marked failed. -/
theorem refused_purges_nothing (hr : ((machine S).restrict publishesInTime).Reachable w) :
    (∀ r, (w.requests r).stage = .refused → r ∉ w.purged) ∧
      ((∀ r, (w.requests r).stage ≠ .accepted) → w.purged = []) := by
  have h : RefusalInv w := by
    refine hr.invariant (fun _ h₀ => .initial h₀) fun _ _ _ hi hs => ?_
    obtain ⟨hc, hs⟩ := Machine.restrict_step_eq_some.mp hs
    exact hi.step hc hs
  refine ⟨fun r hstage hmem => ?_, fun hnone => ?_⟩
  · exact absurd (hstage.symm.trans (h.purged r hmem)) (by decide)
  · exact List.eq_nil_iff_forall_not_mem.mpr fun j hj => hnone j (h.purged j hj)

/-- A DELETE is refused before its message is published, the next one is accepted and purges. -/
def refusedWorld : World :=
  (((machine sampleSettings).restrict publishesInTime).run sampleWorld ([.request, .advanceRequest 0, .advanceRequest 0,
    .advanceRequest 0, .raiseThread 0, .advanceRequest 0, .advanceRequest 0, .request, .advanceRequest 1,
    .advanceRequest 1, .advanceRequest 1, .publish 1, .returnThread 1, .advanceRequest 1, .advanceRequest 1,
    .deliver 1] ++ List.replicate 9 (.advance 0))).get (by decide +kernel)

theorem refused_purges_nothing_sample :
    (refusedWorld.requests 0).stage = .refused ∧ refusedWorld.purged = [1] ∧ 0 ∉ refusedWorld.purged := by
  have hr : ((machine sampleSettings).restrict publishesInTime).Reachable refusedWorld :=
    ⟨_, sampleWorld_initial, _, (some_get _).symm⟩
  have hstage : (refusedWorld.requests 0).stage = .refused := by decide +kernel
  exact ⟨hstage, by decide +kernel, (refused_purges_nothing hr).1 0 hstage⟩

/-- `wait_for` gives up, the job is marked failed, and then the thread publishes. -/
def timeoutWorld : World :=
  ((machine sampleSettings).run sampleWorld ([.request, .advanceRequest 0, .advanceRequest 0, .advanceRequest 0,
    .timeout 0, .advanceRequest 0, .publish 0, .deliver 0] ++ List.replicate 9 (.advance 0))).get (by decide +kernel)

theorem refused_purges : (machine sampleSettings).Reachable timeoutWorld ∧ timeoutWorld.nextRequest = 1 ∧
      (timeoutWorld.requests 0).stage = .refused ∧ timeoutWorld.purged = [0] ∧ timeoutWorld.memories = [] :=
  ⟨⟨_, sampleWorld_initial, _, (some_get _).symm⟩, by decide +kernel, by decide +kernel, by decide +kernel,
    by decide +kernel⟩

end

end IbexHarness.OrgDeletion
