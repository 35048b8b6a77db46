import IbexHarness.OrgDeletion.Lemmas.Locks

/-! No stage runs and no purge commits under an active hold. -/

namespace IbexHarness.OrgDeletion

open Lib Option World Function

variable {S : Settings} {w w' : World} {t : Nat}

/-! ## Holds and certificates -/

def Certifies (w w' : World) (j : Nat) : Prop :=
  (w.jobs.rows j ≠ some .succeeded ∧ w'.jobs.rows j = some .succeeded) ∨
    w.certificates.count j < w'.certificates.count j

/-- What a commit of a task certifies, it has seen erased. -/
theorem Inv.erased_of_certifies (h : Inv S w) {next : TaskStage} {j : Nat} (hc : Certifies w (w.commit t next) j) :
    (w.tasks t).job = j ∧ ∀ s, (w.tasks t).Erased S w.toTables s := by
  rcases hc with ⟨hne, hrow⟩ | hcount
  · simp only [World.commit, World.setTask, RowStore.commitAll, RowStore.rollback] at hrow
    cases hl : (w.tasks t).jobs.lookup j with
    | none =>
      rw [hl, getD_none] at hrow
      exact absurd hrow hne
    | some v =>
      rw [hl, getD_some] at hrow
      subst hrow
      obtain rfl := (h.tasks t).jobs j _ hl
      exact ⟨rfl, (h.tasks t).erased (.inr hl)⟩
  · simp only [World.commit, World.setTask] at hcount
    split_ifs at hcount with hcert
    · have hj : (w.tasks t).job = j := by
        by_contra hj
        rw [List.count_cons_of_ne hj] at hcount
        exact absurd hcount (Nat.lt_irrefl _)
      exact ⟨hj, (h.tasks t).erased (.inl hcert)⟩
    · exact absurd hcount (Nat.lt_irrefl _)

/-- What the transaction has seen erased is verified when it has committed, after a stage that ran. -/
theorem Inv.verified_of_erased (h : Inv S w) (next : TaskStage) {s : Store} (hd : S.deployed s = true)
    (he : (w.tasks t).Erased S w.toTables s) :
    (w.commit t next).receipts.rows ⟨(w.tasks t).job, s⟩ = some .verified ∧ ⟨(w.tasks t).job, s⟩ ∈ w.ran := by
  have hrow : (w.commit t next).receipts.rows ⟨(w.tasks t).job, s⟩ = some .verified := he hd
  have hcommit := h.receipts_commit hrow
  exact ⟨hrow, hcommit.2 hcommit.1.symm⟩

/-- Legal holds stop the deletion, and certificates are truthful. -/
theorem hold_stops_deletion {a : Action} (hr : (machine S).Reachable w) (hs : (machine S).step w a = some w') :
    (∀ t s, a = .advance t → (w.tasks t).stage = .run s → w.hold = false) ∧ (w'.purged ≠ w.purged → w.hold = false) ∧
      (w.hold = false → w'.hold = true → ∀ t, (w.tasks t).checked = false) ∧
      (∀ t s, a = .advance t → (w.tasks t).stage = .upsert s .verified → ⟨(w.tasks t).job, s⟩ ∈ w.ran) ∧
      ∀ j, Certifies w w' j → ∃ t, a = .advance t ∧ (w.tasks t).job = j ∧
        ∀ s, S.deployed s = true → w'.receipts.rows ⟨j, s⟩ = some .verified ∧ ⟨j, s⟩ ∈ w.ran := by
  have h := inv_of_reachable hr
  have hcommitted := step_committed hs
  refine ⟨fun t s _ hstage => ?_, fun hp => ?_, fun hoff hon t => ?_, fun t s _ hstage => ?_, fun j hc => ?_⟩
  · have hok := (h.tasks t).stage
    rw [hstage] at hok
    exact ((h.tasks t).checked hok.2).2
  · rcases hcommitted with ⟨t, next, -, -, rfl⟩ | ⟨r, status, -, hcreate⟩ | hsame
    · cases hpurge : (w.tasks t).purge with
      | none => simp [commit, setTask, hpurge] at hp
      | some ids => exact ((h.tasks t).checked ((h.tasks t).purge ids hpurge).1).2
    · exact absurd hcreate.purged hp
    · exact absurd hsame.purged hp
  · by_contra hchecked
    have hex := ((h.tasks t).checked (by simpa using hchecked)).1
    rcases hcommitted with ⟨t, next, -, -, rfl⟩ | ⟨r, status, -, hcreate⟩ | hsame
    · exact absurd (hoff.symm.trans hon) (by decide)
    · exact absurd (hoff.symm.trans (hcreate.hold.symm.trans hon)) (by decide)
    · rcases hsame.hold hon with hold | ⟨i, hi⟩
      · exact absurd (hoff.symm.trans hold) (by decide)
      · exact absurd (hex.symm.trans (h.holds i (.inr hi))) (by simp)
  · have hok := (h.tasks t).stage
    rw [hstage] at hok
    exact hok.2 rfl
  · rcases hcommitted with ⟨t, next, ha, -, rfl⟩ | ⟨r, status, -, hcreate⟩ | hsame
    · obtain ⟨rfl, herased⟩ := h.erased_of_certifies hc
      exact ⟨t, ha, rfl, fun s hd => h.verified_of_erased next hd (herased s)⟩
    · exfalso
      rcases hc with ⟨hne, hrow⟩ | hcount
      · rw [hcreate.rows] at hrow
        by_cases hj : j = r
        · subst hj
          rw [update_self, some.injEq] at hrow
          rcases hcreate.stage with ⟨rfl, -⟩ | ⟨rfl, -⟩ <;> cases hrow
        · rw [update_of_ne hj] at hrow
          exact hne hrow
      · rw [hcreate.certificates] at hcount
        exact absurd hcount (Nat.lt_irrefl _)
    · exfalso
      rcases hc with ⟨hne, hrow⟩ | hcount
      · exact hne (hsame.rows ▸ hrow)
      · rw [hsame.certificates] at hcount
        exact absurd hcount (Nat.lt_irrefl _)

/-! ## A sample run -/

def sampleSettings : Settings where
  deployed s := s = .postgres || s = .redis
  configured _ := true
  postgres_deployed := rfl

def sampleWorld : World where
  cancelled := false
  deleted := false
  hold := false
  lock := .free
  jobs := ⟨fun _ => none, fun _ => none⟩
  receipts := ⟨fun _ => none, fun _ => none⟩
  memories := [7]
  ran := []
  purged := []
  certificates := []
  queue := []
  requests _ := ⟨.idle, .none, false⟩
  nextRequest := 0
  tasks _ := .idle
  nextTask := 0
  holds _ := .idle
  nextHold := 0
  writes _ := .idle
  nextWrite := 0

theorem sampleWorld_initial : (machine sampleSettings).init sampleWorld := by
  simp [machine, initial, sampleWorld]

def publishedRun : List Action :=
  [.request, .advanceRequest 0, .advanceRequest 0, .advanceRequest 0, .publish 0, .returnThread 0]

def acceptedRun : List Action := publishedRun ++ [.advanceRequest 0, .advanceRequest 0, .deliver 0]

def certifyingWorld : World :=
  ((machine sampleSettings).run sampleWorld (acceptedRun ++ List.replicate 25 (.advance 0))).get
    (by decide +kernel)

theorem hold_stops_deletion_sample : ∃ w', (machine sampleSettings).step certifyingWorld (.advance 0) = some w' ∧
      w'.jobs.rows 0 = some .succeeded ∧ w'.receipts.rows ⟨0, .redis⟩ = some .verified := by
  have hr : (machine sampleSettings).Reachable certifyingWorld :=
    ⟨_, sampleWorld_initial, _, (some_get _).symm⟩
  have hstep : ((machine sampleSettings).step certifyingWorld (.advance 0)).map (·.jobs.rows 0) =
      some (some .succeeded) := by decide +kernel
  obtain ⟨w', hw', hrow⟩ := map_eq_some_iff.mp hstep
  have hcertifies : Certifies certifyingWorld w' 0 := .inl ⟨by decide +kernel, hrow⟩
  obtain ⟨t, -, -, hverified⟩ := (hold_stops_deletion hr hw').2.2.2.2 0 hcertifies
  exact ⟨w', hw', hrow, (hverified .redis rfl).1⟩

/-! ## Memory writes -/

theorem purged_ne_nil_step {a : Action} (hp : w.purged ≠ []) (hs : w.step S a = some w') : w'.purged ≠ [] := by
  rcases step_committed hs with ⟨t, next, -, -, rfl⟩ | ⟨r, status, -, hcreate⟩ | hsame
  · simp only [commit, setTask]
    split_ifs
    · exact List.cons_ne_nil _ _
    · exact hp
  · rwa [hcreate.purged]
  · rwa [hsame.purged]

theorem committed_step {a : Action} {i : Nat} (hs : w.step S a = some w') (hc : w'.writes i = .committed) :
    w.writes i = .committed ∨ w.writes i = .commit := by
  rcases writes_step hs with hsame | ⟨i', stage, hset, hstage⟩
  · exact .inl (hsame ▸ hc)
  · rw [hset] at hc
    by_cases hi : i = i'
    · subst hi
      rw [update_self] at hc
      exact .inr (hstage hc)
    · rw [update_of_ne hi] at hc
      exact .inl hc

/-- From a purge on there are no memories: a write that has not committed before it fails at its check. -/
theorem purge_excludes_writes (hr : (machine S).Reachable w) (hp : w.purged ≠ []) (hl : (machine S).Later w w') :
    w'.memories = [] ∧ (∀ i, w.writes i ≠ .committed →
        w'.writes i = .idle ∨ w'.writes i = .lock ∨ w'.writes i = .check ∨ w'.writes i = .failed) ∧
      ∀ i w'', w'.writes i = .check → (machine S).step w' (.advanceWrite i) = some w'' → w''.writes i = .failed := by
  have hr' := hr.later hl
  have h' := inv_of_reachable hr'
  have hp' : w'.purged ≠ [] := hl.stable (P := fun w => w.purged ≠ []) (fun _ _ _ => purged_ne_nil_step) hp
  obtain ⟨hdeleted, hmemories⟩ := h'.purged hp'
  refine ⟨hmemories, fun i hi => ?_, fun i w'' hi hs => ?_⟩
  · have hnot : w'.writes i ≠ .committed := by
      refine (hl.stable_of (I := Inv S) (P := fun w => w.purged ≠ [] ∧ w.writes i ≠ .committed)
        (fun _ => inv_of_reachable) ?_ hr ⟨hp, hi⟩).2
      rintro v a v' hv ⟨hpv, hiv⟩ hs
      refine ⟨purged_ne_nil_step hpv hs, fun hc => ?_⟩
      rcases committed_step hs hc with hc | hc
      · exact hiv hc
      · exact hpv ((hv.writes i).purged (.inr hc))
    have hinsert : w'.writes i ≠ .insert := fun hc => hp' ((h'.writes i).purged (.inl hc))
    have hcommit : w'.writes i ≠ .commit := fun hc => hp' ((h'.writes i).purged (.inr hc))
    cases hcur : w'.writes i with
    | idle | lock | check | failed => simp
    | insert => exact absurd hcur hinsert
    | commit => exact absurd hcur hcommit
    | committed => exact absurd hcur hnot
  · simp only [machine, step, advanceWrite, hi, hdeleted, Bool.or_true, if_true, some.injEq] at hs
    subst hs
    exact update_self ..

def purgedWorld : World :=
  ((machine sampleSettings).run sampleWorld ([.write, .write, .advanceWrite 0, .advanceWrite 0, .advanceWrite 0,
    .advanceWrite 0] ++ acceptedRun ++ List.replicate 9 (.advance 0))).get (by decide +kernel)

theorem purge_excludes_writes_sample :
    purgedWorld.purged = [0] ∧ purgedWorld.writes 0 = .committed ∧ purgedWorld.writes 1 = .lock ∧
      ∀ w', (machine sampleSettings).Later purgedWorld w' → w'.memories = [] ∧ w'.writes 1 ≠ .committed := by
  have hr : (machine sampleSettings).Reachable purgedWorld := ⟨_, sampleWorld_initial, _, (some_get _).symm⟩
  refine ⟨by decide +kernel, by decide +kernel, by decide +kernel, fun w' hl => ?_⟩
  obtain ⟨hmemories, hwrites, -⟩ := purge_excludes_writes hr (by decide +kernel) hl
  refine ⟨hmemories, ?_⟩
  rcases hwrites 1 (by decide +kernel) with h | h | h | h <;> simp [h]

end IbexHarness.OrgDeletion
