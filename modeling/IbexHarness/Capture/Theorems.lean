import IbexHarness.Capture.Redaction

/-! An object that a run is about to delete is no longer referred to. -/

namespace IbexHarness.Capture

section

open Lib Option World Function

variable {m n : Nat} {cast : Text → Option (Fin m)} {w w' : World m n} {r : Fin n} {s : Stage m} {uri : Uri}

/-- A draft refers to the object that the run has uploaded, and to none before that. -/
def StageOk : Stage m → Prop
  | .upload _ _ draft | .archive _ _ draft => draft.archivedTo = none
  | .commit uploaded draft => draft.archivedTo = none ∨ draft.archivedTo = uploaded
  | _ => True

structure Spared (w : World m n) (r : Fin n) (uri : Uri) : Prop where
  rows : ∀ k, w.archivedTo k ≠ some uri
  runs : ∀ r', r' ≠ r → (w.runs r').uploaded ≠ some uri

structure Inv (w : World m n) : Prop where
  archived : ∀ k uri, w.archivedTo k = some uri → w.objects uri ≠ none
  uploaded : ∀ r uri, (w.runs r).uploaded = some uri → w.objects uri ≠ none
  deleting : ∀ r uri, (w.runs r).deleting = some uri → Spared w r uri
  stages : ∀ r, StageOk (w.runs r)

theorem spared_iff : w.spared r uri = true ↔ Spared w r uri := by
  simp only [World.spared, Bool.and_eq_true, decide_eq_true_eq]
  exact ⟨fun h => ⟨h.1, h.2⟩, fun h => ⟨h.rows, h.runs⟩⟩

/-! ## Changes of the world -/

theorem Inv.change (h : Inv w) (hruns : w'.runs = update w.runs r s)
    (hrows : ∀ k uri, w'.archivedTo k = some uri → w.archivedTo k = some uri ∨ (w.runs r).uploaded = some uri)
    (hobjects : ∀ uri, w.objects uri ≠ none → w'.objects uri ≠ none) (hs : StageOk s)
    (hup : ∀ uri, s.uploaded = some uri → w'.objects uri ≠ none ∧ ∀ r', r' ≠ r → (w.runs r').deleting ≠ some uri)
    (hdel : ∀ uri, s.deleting = some uri → Spared w' r uri) : Inv w' := by
  have hself : w'.runs r = s := by simp [hruns]
  have hother {r' : Fin n} (hne : r' ≠ r) : w'.runs r' = w.runs r' := by simp [hruns, hne]
  refine ⟨fun k uri hk => ?_, fun r' uri hu => ?_, fun r' uri hd => ?_, fun r' => ?_⟩
  · rcases hrows k uri hk with hk | hu
    · exact hobjects uri (h.archived k uri hk)
    · exact hobjects uri (h.uploaded r uri hu)
  · by_cases hne : r' = r
    · exact (hup uri (by rwa [hne, hself] at hu)).1
    · exact hobjects uri (h.uploaded r' uri (by rwa [hother hne] at hu))
  · by_cases hne : r' = r
    · exact hne ▸ hdel uri (by rwa [hne, hself] at hd)
    · rw [hother hne] at hd
      have hspared := h.deleting r' uri hd
      refine ⟨fun k hk => ?_, fun r'' hr hu => ?_⟩
      · rcases hrows k uri hk with hk | hu
        · exact hspared.rows k hk
        · exact hspared.runs r (Ne.symm hne) hu
      · by_cases hr' : r'' = r
        · exact (hup uri (by rwa [hr', hself] at hu)).2 r' hne hd
        · exact hspared.runs r'' hr (by rwa [hother hr'] at hu)
  · by_cases hne : r' = r
    · rwa [hne, hself]
    · rw [hother hne]
      exact h.stages r'

theorem Inv.move (h : Inv w) (hruns : w'.runs = update w.runs r s)
    (hrows : ∀ k, w'.archivedTo k = w.archivedTo k) (hobjects : w'.objects = w.objects) (hs : StageOk s)
    (hup : ∀ uri, s.uploaded = some uri → (w.runs r).uploaded = some uri)
    (hdel : ∀ uri, s.deleting = some uri → Spared w r uri) : Inv w' := by
  refine h.change hruns (fun k uri hk => .inl (hrows k ▸ hk)) (fun uri ho => hobjects ▸ ho) hs (fun uri hu => ?_)
    fun uri hd => ?_
  · refine ⟨hobjects ▸ h.uploaded r uri (hup uri hu), fun r' hne hd => ?_⟩
    exact (h.deleting r' uri hd).runs r (Ne.symm hne) (hup uri hu)
  · refine ⟨fun k hk => (hdel uri hd).rows k (hrows k ▸ hk), fun r' hne hu => (hdel uri hd).runs r' hne ?_⟩
    rwa [hruns, update_of_ne hne] at hu

section

variable (h : Inv w)
include h

section

variable (hs : StageOk s) (hup : ∀ uri, s.uploaded = some uri → (w.runs r).uploaded = some uri)
  (hdel : ∀ uri, s.deleting = some uri → Spared w r uri)
include hs hup hdel

theorem Inv.setRun : Inv (w.setRun r s) :=
  h.move rfl (fun _ => rfl) rfl hs hup hdel

theorem Inv.rollback : Inv (w.rollback r s) :=
  h.move rfl (fun _ => rfl) rfl hs hup hdel

end

theorem Inv.updateRow {k : Fin m} (hw : w.updateRow r k s = some w') (hs : StageOk s)
    (hup : ∀ uri, s.uploaded = some uri → (w.runs r).uploaded = some uri) (hdel : s.deleting = none) : Inv w' := by
  obtain ⟨events, hacquire, rfl⟩ := map_eq_some_iff.mp hw
  refine h.move rfl (fun k => ?_) rfl hs hup (by simp [hdel])
  simp [World.archivedTo, World.setRun, RowStore.rows_of_acquire hacquire]

theorem Inv.done : Inv (w.rollback r .done) := h.rollback trivial nofun nofun

theorem Inv.persistRedacted {job : CaptureJob} {eventID : Text}
    (hw : w.persistRedacted cast r job eventID = some w') : Inv w' := by
  obtain ⟨k, -, hw⟩ := bind_eq_some_iff.mp hw
  split at hw
  · cases hw
    exact h.setRun rfl nofun nofun
  · exact h.updateRow hw rfl nofun rfl

theorem Inv.putArchiveBlob {job : CaptureJob} {kind : Kind} {draft : Draft m} {outcome : PutOutcome}
    (hrun : w.runs r = .upload job kind draft) (hg : w.unshared cast (.put r outcome) = true) :
    Inv (w.putArchiveBlob r job kind draft outcome) := by
  have hdraft : draft.archivedTo = none := by simpa [hrun, StageOk] using h.stages r
  cases outcome with
  | stored u =>
    have hfree : ∀ r', (w.runs r').deleting ≠ some (job.uri kind u) := by
      simpa [unshared, hrun] using hg
    have hstored (s : Stage m) (hs : StageOk s) (hup : s.uploaded = some (job.uri kind u)) (hdel : s.deleting = none) :
        Inv ({ w with objects := update w.objects (job.uri kind u) (some (job.body kind)) }.setRun r s) := by
      refine h.change rfl (fun k uri hk => .inl hk) (fun uri ho => ?_) hs (fun uri hu => ?_) (by simp [hdel])
      · by_cases huri : uri = job.uri kind u <;> simp [World.setRun, huri, ho]
      · obtain rfl := some.inj (hup.symm.trans hu)
        exact ⟨by simp [World.setRun], fun r' _ => hfree r'⟩
    simp only [World.putArchiveBlob]
    split
    · exact hstored _ (.inl hdraft) rfl rfl
    · exact hstored _ hdraft rfl rfl
  | unconfigured =>
    simp only [World.putArchiveBlob]
    split_ifs
    · exact h.setRun (.inl hdraft) nofun nofun
    · exact h.done
  | failed => exact h.done

theorem Inv.setArchivedTo {eventID : Text} {draft : Draft m}
    (hrun : w.runs r = .archive eventID uri draft) (hg : w.unshared cast (.advance r) = true)
    (hw : w.setArchivedTo cast r eventID uri draft = some w') : Inv w' := by
  obtain ⟨k, hk, hw⟩ := bind_eq_some_iff.mp hw
  split at hw
  · rename_i hrow
    cases hw
    refine h.setRun trivial nofun fun u hu => ?_
    cases hu
    simpa [unshared, hrun, hk, hrow, spared_iff] using hg
  · exact h.updateRow hw (.inr rfl) (fun _ hu => by simpa [hrun, Stage.uploaded] using hu) rfl

theorem Inv.commit {uploaded : Option Uri} {draft : Draft m} (hrun : w.runs r = .commit uploaded draft) :
    Inv (w.commit r draft) := by
  have hdraft : draft.archivedTo = none ∨ draft.archivedTo = uploaded := by simpa [hrun, StageOk] using h.stages r
  unfold World.commit
  split
  · exact h.done
  · rename_i k hrow
    refine h.change rfl (fun k' u hk => ?_) (fun _ ho => ho) trivial nofun nofun
    by_cases heq : k' = k
    · subst heq
      cases hold : w.events.rows k' with
      | none => simp [World.archivedTo, World.setRun, RowStore.commit, RowStore.rollback, hold] at hk
      | some row =>
        have hk : (draft.archivedTo <|> row.archivedTo) = some u := by
          simpa [World.archivedTo, World.setRun, RowStore.commit, RowStore.rollback, hold, Draft.write] using hk
        cases hnew : draft.archivedTo with
        | none => exact .inl (by simpa [archivedTo, hold, hnew] using hk)
        | some v =>
          obtain rfl : v = u := by simpa [hnew] using hk
          refine .inr ?_
          simpa [hrun, Stage.uploaded, hnew, eq_comm] using hdraft
    · exact .inl (by simpa [World.archivedTo, World.setRun, RowStore.commit, RowStore.rollback, heq] using hk)

theorem Inv.error (hg : w.unshared cast (.error r) = true) (hw : w.error r = some w') : Inv w' := by
  have hspared : ∀ u, (w.runs r).uploaded = some u → Spared w r u := fun u hu => by
    simpa [unshared, hu, spared_iff] using hg
  unfold World.error at hw
  split at hw
  case h_1 | h_2 =>
    cases hw
    exact h.done
  case h_3 hrun =>
    cases hw
    refine h.setRun trivial nofun fun u hu => hspared u ?_
    simpa [hrun, Stage.uploaded, Stage.deleting] using hu
  case h_4 uploaded _ hrun =>
    cases hw
    cases uploaded with
    | none => exact h.done
    | some u =>
      refine h.rollback trivial nofun fun u' hu => hspared u' ?_
      simpa [hrun, Stage.uploaded, Stage.deleting] using hu
  case h_5 => cases hw

theorem Inv.delete (hrun : (w.runs r).deleting = some uri) (ok : Bool) :
    Inv ((w.deleteUri uri ok).rollback r .done) := by
  cases ok with
  | false => exact h.done
  | true =>
    have hspared := h.deleting r uri hrun
    have hdone := h.done (r := r)
    have hkeep {u : Uri} (hne : u ≠ uri) (ho : w.objects u ≠ none) :
        ((w.deleteUri uri true).rollback r .done).objects u ≠ none := by
      simpa [World.deleteUri, World.rollback, World.setRun, hne] using ho
    refine ⟨fun k u hk => hkeep ?_ (h.archived k u hk), fun r' u hu => hkeep ?_ (hdone.uploaded r' u hu),
      fun r' u hd => ⟨(hdone.deleting r' u hd).rows, (hdone.deleting r' u hd).runs⟩, hdone.stages⟩
    · rintro rfl
      exact hspared.rows k hk
    · rintro rfl
      by_cases hne : r' = r
      · subst hne
        simp [World.deleteUri, World.rollback, World.setRun, Stage.uploaded] at hu
      · refine hspared.runs r' hne ?_
        simpa [World.deleteUri, World.rollback, World.setRun, hne] using hu

theorem Inv.record {k : Fin m} (data : Payload) (hk : w.events.rows k = none) :
    Inv { w with events := { w.events with rows := update w.events.rows k (some ⟨data, none⟩) } } := by
  have hrows (k' : Fin m) :
      archivedTo { w with events := { w.events with rows := update w.events.rows k (some ⟨data, none⟩) } } k' =
        w.archivedTo k' := by
    by_cases hne : k' = k
    · subst hne
      simp [archivedTo, hk]
    · simp [archivedTo, hne]
  refine ⟨fun k' u hu => h.archived k' u (hrows k' ▸ hu), h.uploaded, fun r u hu => ?_, h.stages⟩
  exact ⟨fun k' hu' => (h.deleting r u hu).rows k' (hrows k' ▸ hu'), (h.deleting r u hu).runs⟩

end

theorem stageOk_applyMode (job : CaptureJob) (mode : Mode) : StageOk (applyMode (m := m) job mode) ∧
    (applyMode (m := m) job mode).uploaded = none ∧ (applyMode (m := m) job mode).deleting = none := by
  unfold applyMode
  cases mode with
  | none | metadataOnly => exact ⟨.inl rfl, rfl, rfl⟩
  | redacted => cases job.eventID <;> simp [StageOk, Stage.uploaded, Stage.deleting, Draft.empty]
  | full => split_ifs <;> simp [StageOk, Stage.uploaded, Stage.deleting, Draft.empty]

theorem Inv.step (h : Inv w) {a : Action m n} (hg : w.unshared cast a = true) (hs : w.step cast a = some w') :
    Inv w' := by
  cases a with
  | begin r job =>
    simp only [World.step] at hs
    split at hs
    · cases hs
      exact h.setRun trivial nofun nofun
    · cases hs
  | resolve r mode =>
    simp only [World.step] at hs
    split at hs
    · cases hs
      obtain ⟨hok, hup, hdel⟩ := stageOk_applyMode (m := m) _ mode
      exact h.setRun hok (by simp [hup]) (by simp [hdel])
    · cases hs
  | put r outcome =>
    simp only [World.step] at hs
    split at hs
    · rename_i hrun
      cases hs
      exact h.putArchiveBlob hrun hg
    · cases hs
  | advance r =>
    simp only [World.step] at hs
    split at hs
    case h_1 => exact h.persistRedacted hs
    case h_2 hrun => exact h.setArchivedTo hrun hg hs
    case h_3 hrun => exact some.inj hs ▸ h.commit hrun
    case h_4 => cases hs
  | error r => exact h.error hg hs
  | delete r ok =>
    simp only [World.step] at hs
    split at hs
    case h_1 hrun | h_2 hrun =>
      cases hs
      exact h.delete (by simp [hrun, Stage.deleting]) ok
    case h_3 => cases hs
  | crash r =>
    simp only [World.step] at hs
    split at hs
    · cases hs
    · exact some.inj hs ▸ h.done
  | record k data =>
    simp only [World.step] at hs
    split at hs
    · rename_i hrow
      exact some.inj hs ▸ h.record data hrow
    · cases hs

theorem inv_of_unshared (hr : ((machine cast n).restrict (World.unshared cast)).Reachable w) : Inv w := by
  refine hr.invariant (P := Inv) (fun w hw => ?_) fun w a w' h hs => ?_
  · obtain ⟨hidle, harchived⟩ := hw
    exact ⟨harchived, fun r => by simp [hidle, Stage.uploaded], fun r => by simp [hidle, Stage.deleting],
      fun r => by simp [hidle, StageOk]⟩
  · obtain ⟨hg, hs⟩ := Machine.restrict_step_eq_some.mp hs
    exact h.step hg hs

end

/-! A committed `archived_to` names an object that is there, unless a run fails whose object another shares. -/

open Lib

/-- In a run whose steps are all `unshared`, an event refers only to objects that are in the archive. -/
theorem archive_reference_exists {m n : Nat} {cast : Text → Option (Fin m)} {w : World m n}
    (hr : ((machine cast n).restrict (World.unshared cast)).Reachable w) :
    ∀ k uri, w.archivedTo k = some uri → w.objects uri ≠ none :=
  (inv_of_unshared hr).archived

/-! ## Two runs for one event -/

def sampleCast (s : Text) : Option (Fin 1) := if s = "0".toList then some 0 else none

def sampleJob : CaptureJob := ⟨some "0".toList, [("prompt".toList, .null), ("model".toList, .null)]⟩

def sampleInit : World 1 2 := ⟨⟨fun _ => some ⟨[], none⟩, fun _ => none⟩, fun _ => none, fun _ => .idle⟩

def sampleUri : Uri := ⟨.full, .event "0".toList⟩

theorem sampleInit_init : (machine sampleCast 2).init sampleInit := ⟨fun _ => rfl, fun _ _ h => nomatch h⟩

def sampleUpload (r : Fin 2) : List (Action 1 2) :=
  [.begin r sampleJob, .resolve r .full, .put r (.stored 0), .advance r]

/-- The first run fails at its commit and deletes its object, then the second one archives. -/
def retriedActions : List (Action 1 2) := sampleUpload 0 ++ [.error 0, .delete 0 true] ++ sampleUpload 1 ++ [.advance 1]

def retriedWorld : World 1 2 :=
  (((machine sampleCast 2).restrict (World.unshared sampleCast)).run sampleInit retriedActions).get (by decide)

theorem archive_reference_exists_sample :
    retriedWorld.archivedTo 0 = some sampleUri ∧ retriedWorld.objects sampleUri ≠ none := by
  have hr : ((machine sampleCast 2).restrict (World.unshared sampleCast)).Reachable retriedWorld :=
    ⟨_, sampleInit_init, retriedActions, (Option.some_get _).symm⟩
  have harchived : retriedWorld.archivedTo 0 = some sampleUri := by decide
  exact ⟨harchived, archive_reference_exists hr 0 sampleUri harchived⟩

/-- The first run commits; a redelivery of its job uploads the object again and fails at its commit. -/
def redeliveredActions : List (Action 1 2) :=
  sampleUpload 0 ++ [.advance 0] ++ sampleUpload 1 ++ [.error 1, .delete 1 true]

def redeliveredWorld : World 1 2 :=
  ((machine sampleCast 2).run sampleInit redeliveredActions).get (by decide)

theorem archive_reference_dangles :
    (machine sampleCast 2).Reachable redeliveredWorld ∧ redeliveredWorld.archivedTo 0 = some sampleUri ∧
      (redeliveredWorld.objects sampleUri).isNone = true := by
  refine ⟨⟨_, sampleInit_init, redeliveredActions, (Option.some_get _).symm⟩, ?_, ?_⟩ <;> decide

end IbexHarness.Capture
