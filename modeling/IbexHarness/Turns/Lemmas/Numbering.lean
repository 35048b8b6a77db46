import IbexHarness.Turns.Lifecycle

/-! The cached counter is above the indexes of all checkpoints, so the first attempt succeeds. -/

namespace IbexHarness.Turns

open Lib List World

variable {π : Type} {w w' : World π} {i : Nat}

/-- The session is there and no checkpoint has the index `i` or a later one. -/
structure Next (w : World π) (i : Nat) : Prop where
  session : ∃ s, w.session = some s
  below : ∀ r ∈ w.checkpoints.rows, r.turnIndex < i

structure Inv (w : World π) : Prop where
  ids : ∀ r ∈ w.checkpoints.rows, r.id < w.nextID
  cache : ∀ c, w.cache = some c → Next w c
  turn : ∀ i, w.turn = some i → Next w i
  completed : ∀ c ∈ w.completed, w.stored c = true

theorem Next.succ (h : Next w i) : Next w (i + 1) := ⟨h.session, fun r hr => Nat.lt_succ_of_lt (h.below r hr)⟩

theorem getOrCreate_eq (w : World π) :
    ∃ s, w.getOrCreate = ({ w with session := some s }, s) ∧ s.turnCount = w.turnCount := by
  unfold getOrCreate turnCount
  cases hs : w.session with
  | some s => exact ⟨s, by simp [← hs], rfl⟩
  | none => exact ⟨_, rfl, rfl⟩

theorem Inv.endTurn (h : Inv w) : Inv { w with turn := none } :=
  ⟨h.ids, fun c he => ⟨(h.cache c he).session, (h.cache c he).below⟩, fun _ => nofun, h.completed⟩

theorem Inv.resolve (h : Inv w) (hg : w.gapless .resolve = true) : Inv w.resolve := by
  unfold World.resolve
  cases hc : w.cache with
  | some count =>
    have hnext := h.cache count hc
    refine ⟨h.ids, fun c he => ?_, fun i he => ?_, h.completed⟩
    · cases he
      exact ⟨hnext.session, hnext.succ.below⟩
    · cases he
      exact ⟨hnext.session, hnext.below⟩
  | none =>
    obtain ⟨s, hget, hcount⟩ := getOrCreate_eq w
    have hbelow : ∀ r ∈ w.checkpoints.rows, r.turnIndex < s.turnCount := by
      simpa [gapless, hc, hcount] using hg
    simp only [hget]
    refine ⟨h.ids, fun c he => ?_, fun i he => ?_, h.completed⟩
    · cases he
      exact ⟨⟨s, rfl⟩, fun r hr => Nat.lt_succ_of_lt (hbelow r hr)⟩
    · cases he
      exact ⟨⟨s, rfl⟩, hbelow⟩

theorem Inv.appendCheckpoint (h : Inv w) {p : CheckpointParams π} (hg : w.gapless (.finish p) = true)
    (hturn : w.turn = some i) :
    ∃ w', w.appendCheckpoint p i = .ok (w', w.nextID) ∧ w'.checkpoints.rows = ⟨w.nextID, i, p⟩ :: w.checkpoints.rows ∧
      w'.nextID = w.nextID + 1 ∧ (∃ s, w'.session = some s) ∧ w'.completed = w.completed := by
  have hi := h.turn i hturn
  obtain ⟨s, hs⟩ := hi.session
  simp only [gapless, hturn, hs, Option.all_some, Bool.and_eq_true] at hg
  obtain ⟨⟨hp, hrow⟩, hstats⟩ := hg
  obtain ⟨t, ht⟩ := Table.exists_insert (t := w.checkpoints) (r := ⟨w.nextID, i, p⟩)
    (fun r hr => Nat.ne_of_lt (h.ids r hr)) fun r hr => Nat.ne_of_lt (hi.below r hr)
  obtain ⟨-, -, hrows⟩ := Table.insert?_eq_some ht
  exact ⟨{ w with session := some (s.bumpStats p), checkpoints := t, nextID := w.nextID + 1 },
    by simp [World.appendCheckpoint, hp, hrow, ht, hs, hstats], hrows, rfl, ⟨_, rfl⟩, rfl⟩

theorem stored_of_rows {r : Checkpoint π} (hrows : w'.checkpoints.rows = r :: w.checkpoints.rows) {c : Completed}
    (h : w.stored c = true) : w'.stored c = true := by
  unfold stored at h ⊢
  rw [hrows, any_cons, h, Bool.or_true]

theorem Inv.finish (h : Inv w) {p : CheckpointParams π} (hg : w.gapless (.finish p) = true) (hturn : w.turn = some i) :
    Inv (w.finish p i) := by
  unfold World.finish
  split_ifs
  · obtain ⟨w', happend, hrows, hid, hsession, hcompleted⟩ := h.appendCheckpoint hg hturn
    simp only [runCheckpoint, happend]
    refine ⟨fun r hr => ?_, fun c he => ?_, fun _ => nofun, fun c hc => ?_⟩
    · rw [hrows, mem_cons] at hr
      rcases hr with rfl | hr
      · exact hid ▸ Nat.lt_succ_self _
      · exact hid ▸ Nat.lt_succ_of_lt (h.ids r hr)
    · cases he
      refine ⟨hsession, fun r hr => ?_⟩
      rw [hrows, mem_cons] at hr
      rcases hr with rfl | hr
      · exact Nat.lt_succ_self _
      · exact Nat.lt_succ_of_lt ((h.turn i hturn).below r hr)
    · rcases mem_cons.mp hc with rfl | hc
      · simp [stored, hrows]
      · exact stored_of_rows (w := w) hrows (h.completed c (hcompleted ▸ hc))
  · exact h.endTurn

theorem Inv.step (h : Inv w) {a : Action π} (hg : w.gapless a = true) (hs : w.step a = some w') : Inv w' := by
  cases a with
  | resolve =>
    simp only [World.step] at hs
    split at hs
    · cases hs
      exact h.resolve hg
    · cases hs
  | finish p =>
    obtain ⟨i, hturn, rfl⟩ := Option.map_eq_some_iff.mp hs
    exact h.finish hg hturn
  | abort =>
    simp only [World.step] at hs
    split at hs
    · cases hs
    · cases hs
      exact h.endTurn
  | loseCache =>
    cases hs
    exact ⟨h.ids, fun _ => nofun, fun i he => ⟨(h.turn i he).session, (h.turn i he).below⟩, h.completed⟩

end IbexHarness.Turns
