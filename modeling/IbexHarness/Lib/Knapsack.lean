import Mathlib.Algebra.BigOperators.Group.List.Basic
import Mathlib.Algebra.GroupWithZero.Nat
import Mathlib.Algebra.Order.Monoid.Defs

/-! Best values by capacity, one item added at a time, and the items that reach them, found by going back over
the items. -/

namespace IbexHarness.Lib.Knapsack

open List

variable {ι : Type*} {α : Type} [LinearOrder α]

section
variable [Add α]

def keeps (row : Nat → α) (w : Nat) (v : α) (capacity : Nat) : Bool :=
  w ≤ capacity && row capacity < row (capacity - w) + v

def step (row : Nat → α) (w : Nat) (v : α) (capacity : Nat) : α :=
  if keeps row w v capacity then row (capacity - w) + v else row capacity

theorem le_step (row : Nat → α) (w : Nat) (v : α) (capacity : Nat) : row capacity ≤ step row w v capacity := by
  rw [step]
  split
  next hkeep =>
    simp only [keeps, Bool.and_eq_true, decide_eq_true_eq] at hkeep
    exact hkeep.2.le
  next => exact le_rfl

theorem take_le_step {row : Nat → α} {w capacity : Nat} (h : w ≤ capacity) (v : α) :
    row (capacity - w) + v ≤ step row w v capacity := by
  rw [step]
  split
  next => exact le_rfl
  next hkeep =>
    simp only [keeps, Bool.and_eq_true, decide_eq_true_eq, not_and] at hkeep
    exact le_of_not_gt (hkeep h)

variable [Zero α] (weight : ι → Nat) (value : ι → α)

def best : List ι → Nat → α
  | [], _ => 0
  | x :: xs, capacity => step (best xs) (weight x) (value x) capacity

def choose : List ι → Nat → List ι
  | [], _ => []
  | x :: xs, capacity =>
    if keeps (best weight value xs) (weight x) (value x) capacity then x :: choose xs (capacity - weight x)
    else choose xs capacity

variable {weight value}

theorem best_reverse (xs : List ι) :
    best weight value xs.reverse = xs.foldl (fun row x => step row (weight x) (value x)) fun _ => 0 := by
  have hfoldr : ∀ ys, best weight value ys = ys.foldr (fun x row => step row (weight x) (value x)) fun _ => 0 := by
    intro ys
    induction ys with
    | nil => rfl
    | cons y ys ih =>
      rw [foldr_cons, ← ih]
      rfl
  rw [hfoldr, foldr_reverse]

theorem choose_sublist (xs : List ι) (capacity : Nat) : (choose weight value xs capacity).Sublist xs := by
  induction xs generalizing capacity with
  | nil => exact .slnil
  | cons x xs ih =>
    rw [choose]
    split
    · exact (ih _).cons_cons x
    · exact (ih _).cons x

theorem choose_weight (xs : List ι) (capacity : Nat) :
    ((choose weight value xs capacity).map weight).sum ≤ capacity := by
  induction xs generalizing capacity with
  | nil => exact Nat.zero_le _
  | cons x xs ih =>
    rw [choose]
    split
    next hkeep =>
      simp only [keeps, Bool.and_eq_true, decide_eq_true_eq] at hkeep
      rw [map_cons, sum_cons]
      have hrest := ih (capacity - weight x)
      omega
    next => exact ih capacity

end

section
variable [AddCommMonoid α] {weight : ι → Nat} {value : ι → α}

theorem choose_value (xs : List ι) (capacity : Nat) :
    ((choose weight value xs capacity).map value).sum = best weight value xs capacity := by
  induction xs generalizing capacity with
  | nil => rfl
  | cons x xs ih =>
    rw [choose, best, step]
    split
    · rw [map_cons, sum_cons, ih, add_comm]
    · exact ih capacity

theorem sum_le_best [IsOrderedAddMonoid α] {s xs : List ι} (h : s.Sublist xs) {capacity : Nat}
    (hweight : (s.map weight).sum ≤ capacity) : (s.map value).sum ≤ best weight value xs capacity := by
  induction h generalizing capacity with
  | slnil => exact le_rfl
  | cons x _ ih => exact (ih hweight).trans (le_step _ _ _ _)
  | cons_cons x _ ih =>
    rw [map_cons, sum_cons] at hweight ⊢
    rw [add_comm]
    have hrest := ih (Nat.le_sub_of_add_le' hweight)
    exact (add_le_add_left hrest _).trans (take_le_step ((Nat.le_add_right _ _).trans hweight) _)

end

end IbexHarness.Lib.Knapsack
