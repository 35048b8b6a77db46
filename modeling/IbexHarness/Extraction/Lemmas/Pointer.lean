import IbexHarness.Extraction.Batch

/-! Every turn of the pointer's job up to the pointer has been extracted. -/

namespace IbexHarness.Extraction

open Lib List World TurnExtraction

variable {μ : Type} {jobs : Jobs} {w w' : World μ} {a : Nat}

def Remaining (jobs : Jobs) (w : World μ) (job : Nat) (pending : List Turn) (indexes : List Nat) : Prop :=
  ∀ t ∈ jobs.turns job, w.hasExtracted t = true ∨ t ∈ pending ∧ t.turnIndex ∈ indexes

def Ascending (jobs : Jobs) (job : Nat) (indexes : List Nat) : Prop :=
  indexes.Pairwise (· < ·) ∧ ∀ k ∈ indexes, ∃ t ∈ jobs.turns job, t.turnIndex = k

def AttemptOk (jobs : Jobs) (w : World μ) : Attempt μ → Prop
  | .extract job pending _ => job ∈ w.started ∧ (∀ t ∈ pending, t ∈ jobs.turns job) ∧
      Remaining jobs w job pending (pending.map Turn.turnIndex)
  | .write job pending _ _ turn _ rest => job ∈ w.started ∧
      Ascending jobs job ((turn :: rest).map TurnExtraction.turnIndex) ∧
      Remaining jobs w job pending ((turn :: rest).map TurnExtraction.turnIndex)
  | .update job pending _ _ turnIndex rest => job ∈ w.started ∧
      Ascending jobs job (turnIndex :: rest.map TurnExtraction.turnIndex) ∧
      Remaining jobs w job pending (rest.map TurnExtraction.turnIndex)
  | .idle | .load _ | .done _ | .failed => True

/-- The pointer was set by a job that had extracted its turns up to there. -/
def PointerOk (jobs : Jobs) (w : World μ) (pointer : Int) : Prop :=
  pointer = 0 ∨ ∃ job ∈ w.started, ∃ t ∈ jobs.turns job, (t.turnIndex : Int) = pointer ∧
    ∀ t' ∈ jobs.turns job, t'.turnIndex ≤ t.turnIndex → w.hasExtracted t' = true

structure Inv (jobs : Jobs) (w : World μ) : Prop where
  pointer : ∀ r, w.row = some r → PointerOk jobs w r.lastExtractedTurn
  attempts : ∀ a, AttemptOk jobs w (w.attempts a)
  finished : ∀ job ∈ w.finished, ∀ t ∈ jobs.turns job, w.hasExtracted t = true

/-! ## More is extracted -/

structure Grows (w w' : World μ) : Prop where
  started : ∀ job ∈ w.started, job ∈ w'.started
  extracted : ∀ t, w.hasExtracted t = true → w'.hasExtracted t = true

variable {job revision written : Nat} {pending : List Turn} {s : Attempt μ} {rest : List (TurnExtraction μ)}

theorem Grows.of_eq (hs : w'.started = w.started) (he : w'.extracted = w.extracted) : Grows w w' :=
  ⟨fun _ h => hs ▸ h, fun t h => by rwa [hasExtracted, he]⟩

theorem Remaining.grow {indexes : List Nat}
    (h : Remaining jobs w job pending indexes) (hg : Grows w w') : Remaining jobs w' job pending indexes :=
  fun t ht => (h t ht).imp_left (hg.extracted t)

theorem AttemptOk.grow (h : AttemptOk jobs w s) (hg : Grows w w') : AttemptOk jobs w' s := by
  cases s with
  | extract | write | update => exact ⟨hg.started _ h.1, h.2.1, h.2.2.grow hg⟩
  | _ => trivial

theorem PointerOk.grow {pointer : Int} (h : PointerOk jobs w pointer) (hg : Grows w w') :
    PointerOk jobs w' pointer := by
  refine h.imp_right ?_
  rintro ⟨job, hjob, t, ht, heq, hall⟩
  exact ⟨job, hg.started job hjob, t, ht, heq, fun t' ht' hle => hg.extracted t' (hall t' ht' hle)⟩

theorem Inv.grow (h : Inv jobs w) (hg : Grows w w')
    (hrow : ∀ r, w'.row = some r → PointerOk jobs w' r.lastExtractedTurn)
    (hattempts : ∀ b, w'.attempts b = w.attempts b ∨ AttemptOk jobs w' (w'.attempts b))
    (hfinished : ∀ job ∈ w'.finished, job ∈ w.finished ∨ ∀ t ∈ jobs.turns job, w'.hasExtracted t = true) :
    Inv jobs w' := by
  refine ⟨hrow, fun b => ?_, fun job hjob t ht => ?_⟩
  · rcases hattempts b with heq | hok
    · rw [heq]
      exact (h.attempts b).grow hg
    · exact hok
  · rcases hfinished job hjob with hjob | hall
    · exact hg.extracted t (h.finished job hjob t ht)
    · exact hall t ht

theorem Inv.of_grows (h : Inv jobs w) (hg : Grows w w') (hrow : w'.row = w.row) (hattempts : w'.attempts = w.attempts)
    (hfinished : w'.finished = w.finished) : Inv jobs w' :=
  h.grow hg (fun r hr => (h.pointer r (hrow ▸ hr)).grow hg) (fun b => .inl (congrFun hattempts b))
    fun _ hjob => .inl (hfinished ▸ hjob)

theorem attempts_setAttempt (hs : AttemptOk jobs w s) (b : Nat) :
    (w.setAttempt a s).attempts b = w.attempts b ∨ AttemptOk jobs (w.setAttempt a s)
    ((w.setAttempt a s).attempts b) := by
  by_cases hb : b = a
  · subst hb
    have hg : Grows w (w.setAttempt b s) := .of_eq rfl rfl
    refine .inr ?_
    simpa [setAttempt] using hs.grow hg
  · exact .inl (by simp [setAttempt, hb])

section

variable (h : Inv jobs w)
include h

theorem Inv.setAttempt (hs : AttemptOk jobs w s) : Inv jobs (w.setAttempt a s) :=
  h.grow (.of_eq rfl rfl) (fun r hr => (h.pointer r hr).grow (.of_eq rfl rfl))
    (attempts_setAttempt hs) fun _ hjob => .inl hjob

theorem Inv.finish (hjob : ∀ t ∈ jobs.turns job, w.hasExtracted t = true) :
    Inv jobs { w with finished := job :: w.finished } := by
  refine h.grow (.of_eq rfl rfl) (fun r hr => (h.pointer r hr).grow (.of_eq rfl rfl))
    (fun _ => .inl rfl) fun job' hmem => ?_
  rcases mem_cons.mp hmem with rfl | hmem
  · exact .inr hjob
  · exact .inl hmem

theorem Inv.begin (job : Nat) : Inv jobs { w with started := job :: w.started } := by
  have hg : Grows w { w with started := job :: w.started } := ⟨fun _ h => mem_cons_of_mem _ h, fun _ h => h⟩
  exact h.of_grows hg rfl rfl rfl

theorem Inv.selected {r : SessionRow} (hr : w.row = some r)
    (horder : ∀ t ∈ jobs.turns job, 0 < t.turnIndex ∧
      ∀ j ∈ w.started, j = job ∨ ∀ t' ∈ jobs.turns j, t'.turnIndex < t.turnIndex)
    {t : Turn} (ht : t ∈ jobs.turns job) (hle : (t.turnIndex : Int) ≤ r.lastExtractedTurn) : w.hasExtracted t =
      true := by
  obtain ⟨hpos, hbelow⟩ := horder t ht
  rcases h.pointer r hr with hzero | ⟨job', hjob', t', ht', heq, hall⟩
  · omega
  · rcases hbelow job' hjob' with rfl | hlt
    · exact hall t ht (by omega)
    · have := hlt t' ht'
      omega

theorem Inv.load (horder : ∀ t ∈ jobs.turns job, 0 < t.turnIndex ∧
      ∀ j ∈ w.started, j = job ∨ ∀ t' ∈ jobs.turns j, t'.turnIndex < t.turnIndex) : Inv jobs (w.load jobs a job) := by
  have hb := h.begin job
  simp only [World.load]
  split
  · exact hb.setAttempt (by trivial)
  · rename_i r hrow
    have hrest : ∀ t ∈ jobs.turns job, w.hasExtracted t = true ∨
        t ∈ selectUnprocessedTurns (jobs.turns job) r.lastExtractedTurn := by
      intro t ht
      rcases le_or_gt (t.turnIndex : Int) r.lastExtractedTurn with hle | hlt
      · exact .inl (h.selected hrow horder ht hle)
      · exact .inr (mem_filter.mpr ⟨ht, by simpa using hlt⟩)
    split_ifs with hready hnone hbytes
    · exact hb.setAttempt (by trivial)
    · refine (hb.finish fun t ht => (hrest t ht).resolve_right ?_).setAttempt (by trivial)
      simp [hnone]
    · exact hb.setAttempt (by trivial)
    · refine hb.setAttempt (s := .extract job _ _) ⟨mem_cons_self .., fun t ht => (mem_filter.mp ht).1, fun t ht => ?_⟩
      exact (hrest t ht).imp_right fun hmem => ⟨hmem, mem_map_of_mem hmem⟩

theorem Inv.next
    (hjob : job ∈ w.started) (hasc : Ascending jobs job (rest.map turnIndex))
    (hrem : Remaining jobs w job pending (rest.map turnIndex)) :
    Inv jobs (w.next a job pending revision written rest) := by
  cases rest with
  | nil => exact (h.finish fun t ht => (hrem t ht).resolve_right (by simp)).setAttempt (by trivial)
  | cons turn rest => exact h.setAttempt (s := .write ..) ⟨hjob, hasc, hrem⟩

end

theorem inTurnOrder_ascending {batch : List (TurnExtraction μ)} (h : (batch.map turnIndex).Nodup) :
    ((inTurnOrder batch).map turnIndex).Pairwise (· < ·) := by
  have hperm : (inTurnOrder batch).Perm batch := perm_insertionSort _ _
  have hnodup := ((hperm.map turnIndex).nodup_iff).mpr h
  have hsorted : (inTurnOrder batch).Pairwise fun a b => a.turnIndex ≤ b.turnIndex :=
    pairwise_insertionSort _ _
  exact ((pairwise_map.mpr hsorted).and hnodup).imp fun hab => lt_of_le_of_ne hab.1 hab.2

theorem Inv.persist (h : Inv jobs w) (batch : List (TurnExtraction μ))
    (hs : w.attempts a = .extract job pending revision) : Inv jobs (w.persist a job pending revision batch) := by
  have hok := h.attempts a
  rw [hs] at hok
  obtain ⟨hjob, hsub, hrem⟩ := hok
  unfold World.persist
  split_ifs with hexact
  · simp only [exactTurnIndexes, Bool.and_eq_true, decide_eq_true_eq, all_eq_true] at hexact
    obtain ⟨⟨⟨⟨-, hgot⟩, -⟩, hexpected⟩, hback⟩ := hexact
    have hperm : ((inTurnOrder batch).map turnIndex).Perm (batch.map turnIndex) :=
      (perm_insertionSort _ _).map _
    refine h.next hjob ⟨inTurnOrder_ascending hgot, fun k hk => ?_⟩ fun t ht => ?_
    · obtain ⟨t, ht, rfl⟩ := mem_map.mp (hback k (hperm.mem_iff.mp hk))
      exact ⟨t, hsub t ht, rfl⟩
    · exact (hrem t ht).imp_right fun hmem => ⟨hmem.1, hperm.mem_iff.mpr (hexpected _ hmem.2)⟩
  · exact h.setAttempt (by trivial)

theorem Inv.write (h : Inv jobs w) {ordinal : Nat} {turn : TurnExtraction μ}
    (hs : w.attempts a = .write job pending revision written turn ordinal rest) :
    Inv jobs (w.write a job pending revision written turn ordinal rest) := by
  have hok := h.attempts a
  rw [hs] at hok
  obtain ⟨hjob, hasc, hrem⟩ := hok
  unfold World.write
  split
  · rename_i m _
    have hg : Grows w { w with memories := ⟨turn.turnIndex, ordinal, m⟩ :: w.memories } := .of_eq rfl rfl
    exact (h.of_grows hg rfl rfl rfl).setAttempt (s := .write ..) ⟨hjob, hasc, hrem.grow hg⟩
  · have hg : Grows w { w with extracted := ⟨pending, turn.turnIndex⟩ :: w.extracted } :=
      ⟨fun _ h => h, fun t ht => by simpa [hasExtracted] using .inr (by simpa [hasExtracted] using ht)⟩
    refine (h.of_grows hg rfl rfl rfl).setAttempt (s := .update ..) ⟨hjob, hasc, fun t ht => ?_⟩
    rcases hrem t ht with hext | ⟨hmem, hidx⟩
    · exact .inl (hg.extracted t hext)
    · rcases mem_cons.mp hidx with heq | hidx
      · exact .inl (by simp [hasExtracted, hmem, heq])
      · exact .inr ⟨hmem, hidx⟩

theorem Inv.update (h : Inv jobs w) {turnIndex : Nat}
    (hs : w.attempts a = .update job pending revision written turnIndex rest) :
    Inv jobs (w.update a job pending revision written turnIndex rest) := by
  have hok := h.attempts a
  rw [hs] at hok
  obtain ⟨hjob, hasc, hrem⟩ := hok
  unfold World.update
  split
  · exact h.setAttempt (by trivial)
  · rename_i row hrow
    obtain ⟨r, hr, hupdate⟩ := Option.bind_eq_some_iff.mp hrow
    unfold SessionRow.updateLastExtractedTurn at hupdate
    split_ifs at hupdate
    cases hupdate
    have hg : Grows w { w with row := some { r with lastExtractedTurn := max r.lastExtractedTurn turnIndex } } :=
      .of_eq rfl rfl
    refine Inv.next (h.grow hg ?_ (fun _ => .inl rfl) fun _ hj => .inl hj) hjob
      ⟨hasc.1.of_cons, fun k hk => hasc.2 k (mem_cons_of_mem _ hk)⟩ (hrem.grow hg)
    rintro r' hr'
    cases hr'
    rcases le_total r.lastExtractedTurn turnIndex with hle | hle
    · -- every turn of the job up to this one was written, since they are written in turn order
      obtain ⟨t, ht, heq⟩ := hasc.2 turnIndex (mem_cons_self ..)
      refine .inr ⟨job, hjob, t, ht, by simp [heq, hle], fun t' ht' hle' => ?_⟩
      rcases (hrem t' ht').imp_right And.right with hext | hidx
      · exact hext
      · have hlt := rel_of_pairwise_cons hasc.1 hidx
        omega
    · simpa only [max_eq_left hle] using (h.pointer r hr).grow hg

theorem inOrder_load (h : w.inOrder jobs (.advance a) = true) (hs : w.attempts a = .load job) :
    ∀ t ∈ jobs.turns job, 0 < t.turnIndex ∧
      ∀ j ∈ w.started, j = job ∨ ∀ t' ∈ jobs.turns j, t'.turnIndex < t.turnIndex := by
  simpa [inOrder, hs] using h

theorem Inv.step (h : Inv jobs w) {act : Action μ} (horder : w.inOrder jobs act = true)
    (hs : w.step jobs act = some w') : Inv jobs w' := by
  cases act with
  | begin a job =>
    simp only [World.step] at hs
    split at hs
    · cases hs
      refine h.setAttempt ?_
      split_ifs <;> trivial
    · cases hs
  | extracted a batch =>
    simp only [World.step] at hs
    split at hs
    · rename_i job pending revision hattempt
      cases batch with
      | none =>
        cases hs
        exact h.setAttempt (by trivial)
      | some batch =>
        cases hs
        exact h.persist batch hattempt
    · cases hs
  | advance a =>
    simp only [World.step] at hs
    split at hs
    case h_1 job hattempt =>
      cases hs
      exact h.load (inOrder_load horder hattempt)
    case h_2 job pending revision written turn ordinal rest hattempt =>
      cases hs
      exact h.write hattempt
    case h_3 job pending revision written turnIndex rest hattempt =>
      cases hs
      exact h.update hattempt
    all_goals cases hs
  | fail a =>
    simp only [World.step] at hs
    split at hs
    case h_3 =>
      cases hs
      exact h.setAttempt (by trivial)
    all_goals cases hs
  | lifecycle status deleted =>
    cases hs
    refine h.grow (.of_eq rfl rfl) (fun r' hr' => ?_) (fun _ => .inl rfl) fun _ hj => .inl hj
    obtain ⟨r, hr, rfl⟩ := Option.map_eq_some_iff.mp hr'
    exact (h.pointer r hr).grow (.of_eq rfl rfl)
  | erase =>
    cases hs
    exact h.grow (.of_eq rfl rfl) (fun _ hr => nomatch hr) (fun _ => .inl rfl) fun _ hj => .inl hj

theorem inv_of_inOrder (hr : ((machine μ jobs).restrict (World.inOrder jobs)).Reachable w) : Inv jobs w := by
  refine hr.invariant (P := Inv jobs) (fun w hw => ?_) fun w act w' h hs => ?_
  · obtain rfl : w = .init := hw
    refine ⟨fun r hr => .inl ?_, fun _ => trivial, fun _ hj => absurd hj not_mem_nil⟩
    rw [← Option.some.inj hr]
    rfl
  · obtain ⟨horder, hs⟩ := Machine.restrict_step_eq_some.mp hs
    exact h.step horder hs

/-! ## The pointer never decreases -/

def Advanced (w w' : World μ) : Prop :=
  ∀ r', w'.row = some r' → ∃ r, w.row = some r ∧ r.lastExtractedTurn ≤ r'.lastExtractedTurn

theorem Advanced.of_eq (h : w'.row = w.row) : Advanced w w' := fun r' hr' => ⟨r', h ▸ hr', le_rfl⟩

theorem Advanced.trans {w'' : World μ} (h : Advanced w w') (h' : Advanced w' w'') : Advanced w w'' := by
  intro r'' hr''
  obtain ⟨r', hr', hle'⟩ := h' r'' hr''
  obtain ⟨r, hr, hle⟩ := h r' hr'
  exact ⟨r, hr, hle.trans hle'⟩

@[simp] theorem row_setAttempt (w : World μ) (a : Nat) (s : Attempt μ) : (w.setAttempt a s).row = w.row := rfl

@[simp] theorem row_next (w : World μ) (a job : Nat) (pending : List Turn) (revision written : Nat)
    (rest : List (TurnExtraction μ)) : (w.next a job pending revision written rest).row = w.row := by
  cases rest <;> rfl

theorem row_load (w : World μ) (a job : Nat) : (w.load jobs a job).row = w.row := by
  unfold load
  dsimp only
  split
  · rfl
  · split_ifs <;> rfl

theorem advanced_update (w : World μ) (a job : Nat) (pending : List Turn) (revision written turnIndex : Nat)
    (rest : List (TurnExtraction μ)) : Advanced w (w.update a job pending revision written turnIndex rest) := by
  unfold update
  split
  · exact .of_eq rfl
  · rename_i row hrow
    obtain ⟨r, hr, hupdate⟩ := Option.bind_eq_some_iff.mp hrow
    unfold SessionRow.updateLastExtractedTurn at hupdate
    split_ifs at hupdate
    cases hupdate
    intro r' hr'
    obtain rfl : _ = r' := by simpa using hr'
    exact ⟨r, hr, le_max_left _ _⟩

theorem advanced_step {act : Action μ} (hs : w.step jobs act = some w') : Advanced w w' := by
  cases act with
  | begin a job =>
    simp only [step] at hs
    split at hs
    · exact .of_eq (Option.some.inj hs ▸ rfl)
    · cases hs
  | extracted a batch =>
    simp only [step] at hs
    split at hs
    · split at hs
      · cases hs
        refine .of_eq ?_
        unfold persist
        split_ifs <;> simp
      · exact .of_eq (Option.some.inj hs ▸ rfl)
    · cases hs
  | advance a =>
    simp only [step] at hs
    split at hs
    case h_1 => exact .of_eq (Option.some.inj hs ▸ row_load _ _ _)
    case h_2 =>
      cases hs
      refine .of_eq ?_
      unfold write
      split <;> rfl
    case h_3 => exact Option.some.inj hs ▸ advanced_update _ _ _ _ _ _ _ _
    all_goals cases hs
  | fail a =>
    simp only [step] at hs
    split at hs
    case h_3 => exact .of_eq (Option.some.inj hs ▸ rfl)
    all_goals cases hs
  | lifecycle status deleted =>
    cases hs
    intro r' hr'
    obtain ⟨r, hr, rfl⟩ := Option.map_eq_some_iff.mp hr'
    exact ⟨r, hr, le_rfl⟩
  | erase =>
    cases hs
    exact fun _ hr => nomatch hr

theorem advanced_of_later (hl : (machine μ jobs).Later w w') : Advanced w w' :=
  hl.stable (P := Advanced w) (fun _ _ _ h hs => h.trans (advanced_step hs)) (.of_eq rfl)

end IbexHarness.Extraction
