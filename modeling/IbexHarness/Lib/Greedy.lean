import Mathlib.Data.List.Sublists

/-! Drop the least element until a selection fits, and add elements in a given order as long as it does. -/

namespace IbexHarness.Lib.Greedy

open List

variable {β : Type*} (lt : β → β → Bool) (fits : List β → Bool)

def leastIdx : List β → Nat
  | [] => 0
  | [_] => 0
  | x :: y :: l =>
    let j := leastIdx (y :: l)
    if lt ((y :: l).getD j y) x then j + 1 else 0

theorem leastIdx_lt {l : List β} (h : l ≠ []) : leastIdx lt l < l.length := by
  fun_induction leastIdx lt l with
  | case1 => exact absurd rfl h
  | case2 => exact Nat.one_pos
  | case3 x y l j hlt ih => exact Nat.succ_lt_succ (ih (cons_ne_nil _ _))
  | case4 x y l j hlt ih => exact Nat.succ_pos _

/-- Drop the least element until the selection fits or is empty, in at most `n` rounds: what is kept and what was
dropped. -/
def dropUntil : Nat → List β → List β × List β
  | 0, l => (l, [])
  | n + 1, l =>
    if l.isEmpty || fits l then (l, [])
    else
      let i := leastIdx lt l
      ((dropUntil n (l.eraseIdx i)).1, l[i]?.toList ++ (dropUntil n (l.eraseIdx i)).2)

section
variable {lt fits}

theorem dropUntil_fits (hnil : fits [] = true) {n : Nat} {l : List β} (hn : l.length ≤ n) :
    fits (dropUntil lt fits n l).1 = true := by
  induction n generalizing l with
  | zero =>
    rw [eq_nil_of_length_eq_zero (Nat.le_zero.1 hn)]
    exact hnil
  | succ n ih =>
    simp only [dropUntil]
    split
    next h =>
      rcases (Bool.or_eq_true _ _).mp h with hempty | hfits
      · rw [isEmpty_iff.1 hempty]
        exact hnil
      · exact hfits
    next h =>
      have hne : l ≠ [] := by
        rintro rfl
        exact h rfl
      have hlt := leastIdx_lt lt hne
      exact ih (by rw [length_eraseIdx_of_lt hlt]; omega)

theorem dropUntil_of_fits {l : List β} (h : fits l = true) (n : Nat) : dropUntil lt fits n l = (l, []) := by
  cases n with
  | zero => rfl
  | succ n => rw [dropUntil, if_pos (by rw [h, Bool.or_true])]

theorem dropUntil_perm (n : Nat) (l : List β) : ((dropUntil lt fits n l).1 ++ (dropUntil lt fits n l).2).Perm l := by
  induction n generalizing l with
  | zero => simp [dropUntil]
  | succ n ih =>
    simp only [dropUntil]
    split
    next => simp
    next h =>
      have hne : l ≠ [] := by
        rintro rfl
        exact h rfl
      have hlt := leastIdx_lt lt hne
      rw [List.getElem?_eq_getElem hlt, Option.toList_some]
      exact perm_middle.trans (((ih _).cons _).trans (getElem_cons_eraseIdx_perm hlt))

end

/-- Add the elements of `order` that are not to be skipped, each if the selection still fits with it. -/
def refill (skip : List β → β → Bool) (out order : List β) : List β :=
  order.foldl (fun out x => if skip out x then out else if fits (out ++ [x]) then out ++ [x] else out) out

section
variable {fits} {skip : List β → β → Bool}

variable {out order : List β}

theorem refill_cons (out : List β) (x : β) (order : List β) : refill fits skip out (x :: order) =
      refill fits skip (if skip out x then out else if fits (out ++ [x]) then out ++ [x] else out) order := rfl

theorem refill_induction {motive : List β → Prop} (start : motive out)
    (add : ∀ acc x, x ∈ order → motive acc → skip acc x = false → fits (acc ++ [x]) = true → motive (acc ++ [x])) :
    motive (refill fits skip out order) := by
  induction order generalizing out with
  | nil => exact start
  | cons x order ih =>
    rw [refill_cons]
    apply ih
    · split
      next => exact start
      next hskip =>
        split
        next hfits => exact add out x (mem_cons_self ..) start (by simpa using hskip) hfits
        next => exact start
    · exact fun acc y hy => add acc y (mem_cons_of_mem _ hy)

theorem refill_fits (order : List β) (h : fits out = true) : fits (refill fits skip out order) = true :=
  refill_induction (motive := fun acc => fits acc = true) h fun _ _ _ _ _ hfits => hfits

theorem mem_of_mem_refill {x : β} : x ∈ refill fits skip out order → x ∈ out ∨ x ∈ order :=
  refill_induction (motive := fun acc => x ∈ acc → x ∈ out ∨ x ∈ order) .inl fun _ y hy hacc _ _ hx => by
    rcases mem_append.1 hx with hx | hx
    · exact hacc hx
    · rw [mem_singleton.1 hx]
      exact .inr hy

theorem sublist_refill (out order : List β) : out.Sublist (refill fits skip out order) :=
  refill_induction (motive := fun acc => out.Sublist acc) (List.Sublist.refl out) fun _ _ _ hacc _ _ =>
    hacc.trans (sublist_append_left _ _)

theorem not_fits_refill (hfits : ∀ s t : List β, s.Sublist t → fits t = true → fits s = true) {x : β}
    (hskip : ∀ acc y, skip acc x = true → skip (acc ++ [y]) x = true) (hx : x ∈ order)
    (hleft : skip (refill fits skip out order) x = false) (hnot : x ∉ refill fits skip out order) :
    fits (refill fits skip out order ++ [x]) = false := by
  induction order generalizing out with
  | nil => exact absurd hx not_mem_nil
  | cons y order ih =>
    rw [refill_cons] at hleft hnot ⊢
    rcases mem_cons.1 hx with rfl | hx
    · have hgo : skip out x = false := by
        rw [Bool.eq_false_iff] at hleft ⊢
        intro hout
        rw [if_pos hout] at hleft
        exact hleft (refill_induction (motive := fun acc => skip acc x = true) hout fun acc y _ hacc _ _ =>
          hskip acc y hacc)
      rw [hgo, if_neg Bool.false_ne_true] at hnot ⊢
      rw [Bool.eq_false_iff]
      intro hlater
      by_cases hnow : fits (out ++ [x]) = true
      · rw [if_pos hnow] at hnot
        exact hnot ((sublist_refill _ order).subset (mem_append_right _ mem_cons_self))
      · rw [if_neg hnow] at hlater
        exact hnow (hfits _ _ ((sublist_refill out order).append (List.Sublist.refl [x])) hlater)
    · exact ih hx hleft hnot

end

end IbexHarness.Lib.Greedy
