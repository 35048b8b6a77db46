import Mathlib.Data.List.Pairwise

/-! A pass over a list that keeps an element unless it shares a group with one that was kept before it. -/

namespace IbexHarness.Lib.Apart

open List

variable {α γ : Type} [DecidableEq γ] (groups : α → List γ)

def keep (kept : List γ) : List α → List α
  | [] => []
  | x :: xs => if (groups x).any (kept.contains ·) then keep kept xs else x :: keep (kept ++ groups x) xs

variable {groups} {kept : List γ} {x : α} {xs : List α}

theorem any_contains_iff {gs : List γ} : gs.any (kept.contains ·) = true ↔ ¬ List.Disjoint kept gs := by
  simp [disjoint_right]

theorem keep_cons_pos (h : ¬ List.Disjoint kept (groups x)) : keep groups kept (x :: xs) = keep groups kept xs := by
  rw [keep, if_pos (any_contains_iff.mpr h)]

theorem keep_cons_neg (h : List.Disjoint kept (groups x)) :
    keep groups kept (x :: xs) = x :: keep groups (kept ++ groups x) xs := by
  rw [keep, if_neg (mt any_contains_iff.mp (not_not.mpr h))]

theorem keep_sublist (kept : List γ) (xs : List α) : (keep groups kept xs).Sublist xs := by
  induction xs generalizing kept with
  | nil => exact .slnil
  | cons x xs ih =>
    by_cases h : List.Disjoint kept (groups x)
    · rw [keep_cons_neg h]
      exact (ih _).cons_cons x
    · rw [keep_cons_pos h]
      exact (ih _).cons x

theorem disjoint_of_mem_keep (h : x ∈ keep groups kept xs) : List.Disjoint kept (groups x) := by
  induction xs generalizing kept with
  | nil => cases h
  | cons y xs ih =>
    by_cases hy : List.Disjoint kept (groups y)
    · rw [keep_cons_neg hy] at h
      rcases mem_cons.mp h with rfl | h
      · exact hy
      · exact (disjoint_append_left.mp (ih h)).1
    · rw [keep_cons_pos hy] at h
      exact ih h

theorem keep_pairwise (kept : List γ) (xs : List α) :
    (keep groups kept xs).Pairwise fun x y => List.Disjoint (groups x) (groups y) := by
  induction xs generalizing kept with
  | nil => exact .nil
  | cons x xs ih =>
    by_cases h : List.Disjoint kept (groups x)
    · rw [keep_cons_neg h]
      refine .cons (fun y hy => ?_) (ih _)
      exact (disjoint_append_left.mp (disjoint_of_mem_keep hy)).2
    · rw [keep_cons_pos h]
      exact ih _

theorem keep_disjoint {y : α} (hx : x ∈ keep groups kept xs) (hy : y ∈ keep groups kept xs) (hne : x ≠ y) :
    List.Disjoint (groups x) (groups y) := by
  have hsymm : Std.Symm fun x y => List.Disjoint (groups x) (groups y) := ⟨fun _ _ h _ hy hx => h hx hy⟩
  exact (keep_pairwise kept xs).forall hx hy hne

theorem keep_eq_self (h : ∀ x ∈ xs, groups x = []) : keep groups kept xs = xs := by
  induction xs generalizing kept with
  | nil => rfl
  | cons x xs ih =>
    have hx : List.Disjoint kept (groups x) := by simp [h x mem_cons_self]
    rw [keep_cons_neg hx, ih fun y hy => h y (mem_cons_of_mem x hy)]

theorem exists_of_not_mem_keep {r : α → α → Prop} (hr : xs.Pairwise r) (hx : x ∈ xs) (hout : x ∉ keep groups kept xs)
    (hkept : List.Disjoint kept (groups x)) :
    ∃ y ∈ keep groups kept xs, r y x ∧ ¬ List.Disjoint (groups y) (groups x) := by
  induction xs generalizing kept with
  | nil => cases hx
  | cons z xs ih =>
    obtain ⟨hz, hr⟩ := pairwise_cons.mp hr
    by_cases h : List.Disjoint kept (groups z)
    · rw [keep_cons_neg h] at hout ⊢
      obtain ⟨hne, hout⟩ := not_or.mp (mt mem_cons.mpr hout)
      have hx := (mem_cons.mp hx).resolve_left hne
      by_cases hshare : List.Disjoint (groups z) (groups x)
      · obtain ⟨y, hy, hyx⟩ := ih hr hx hout (disjoint_append_left.mpr ⟨hkept, hshare⟩)
        exact ⟨y, mem_cons_of_mem z hy, hyx⟩
      · exact ⟨z, mem_cons_self, hz x hx, hshare⟩
    · rw [keep_cons_pos h] at hout ⊢
      have hne : x ≠ z := by
        rintro rfl
        exact h hkept
      exact ih hr ((mem_cons.mp hx).resolve_left hne) hout hkept

end IbexHarness.Lib.Apart
