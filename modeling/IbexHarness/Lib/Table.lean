import Mathlib.Data.List.Nodup
import Mathlib.Algebra.Order.BigOperators.Group.List
import Mathlib.Algebra.GroupWithZero.Nat
import Mathlib.Algebra.Order.Group.Nat

/-! An SQL table with a primary key and one `UNIQUE` constraint, as a list of rows that carries both
constraints. -/

namespace IbexHarness.Lib

universe u v w

class Keyed (ρ : Type u) (ι : outParam (Type v)) (κ : outParam (Type w)) where
  pk : ρ → ι
  uk : ρ → κ

open Keyed List Function

structure Table (ρ : Type u) {ι : Type v} {κ : Type w} [Keyed ρ ι κ] where
  rows : List ρ
  pk_nodup : (rows.map pk).Nodup
  uk_nodup : (rows.map uk).Nodup

/-- An `UPDATE`: the `WHERE` condition and the assignment, which keeps both keys. -/
structure Edit (ρ : Type u) {ι : Type v} {κ : Type w} [Keyed ρ ι κ] where
  cond : ρ → Bool
  set : ρ → ρ
  pk_set : ∀ r, pk (set r) = pk r
  uk_set : ∀ r, uk (set r) = uk r

variable {ρ : Type u} {ι : Type v} {κ : Type w} [Keyed ρ ι κ]

def Edit.apply (e : Edit ρ) (r : ρ) : ρ := if e.cond r then e.set r else r

theorem Edit.apply_pos {e : Edit ρ} {r : ρ} (h : e.cond r = true) : e.apply r = e.set r := by
  simp [apply, h]

theorem Edit.apply_neg {e : Edit ρ} {r : ρ} (h : e.cond r = false) : e.apply r = r := by
  simp [apply, h]

@[simp] theorem Edit.pk_apply (e : Edit ρ) (r : ρ) : pk (e.apply r) = pk r := by
  cases h : e.cond r <;> simp [apply, h, e.pk_set]

@[simp] theorem Edit.uk_apply (e : Edit ρ) (r : ρ) : uk (e.apply r) = uk r := by
  cases h : e.cond r <;> simp [apply, h, e.uk_set]

namespace Table

def empty : Table ρ := ⟨[], List.nodup_nil, List.nodup_nil⟩

def update (t : Table ρ) (e : Edit ρ) : Table ρ where
  rows := t.rows.map e.apply
  pk_nodup := by
    have h : (t.rows.map e.apply).map pk = t.rows.map pk := by simp [Function.comp_def]
    exact h ▸ t.pk_nodup
  uk_nodup := by
    have h : (t.rows.map e.apply).map uk = t.rows.map uk := by simp [Function.comp_def]
    exact h ▸ t.uk_nodup

def delete (t : Table ρ) (cond : ρ → Bool) : Table ρ where
  rows := t.rows.filter fun r => !cond r
  pk_nodup := (List.filter_sublist.map pk).nodup t.pk_nodup
  uk_nodup := (List.filter_sublist.map uk).nodup t.uk_nodup

/-- The rows an `UPDATE` returns: those it changed, with their new values. -/
def returning (t : Table ρ) (e : Edit ρ) : List ρ := (t.rows.filter e.cond).map e.set

section Lookup

variable [DecidableEq ι] [DecidableEq κ]

def get (t : Table ρ) (i : ι) : Option ρ := t.rows.find? fun r => pk r = i

def find (t : Table ρ) (k : κ) : Option ρ := t.rows.find? fun r => uk r = k

/-- `INSERT … ON CONFLICT DO NOTHING`; `none` when a row with one of the keys is there. -/
def insert? (t : Table ρ) (r : ρ) : Option (Table ρ) :=
  if h : pk r ∉ t.rows.map pk ∧ uk r ∉ t.rows.map uk then
    some ⟨r :: t.rows, List.nodup_cons.mpr ⟨h.1, t.pk_nodup⟩, List.nodup_cons.mpr ⟨h.2, t.uk_nodup⟩⟩
  else none

end Lookup

def sumBy (t : Table ρ) (w : ρ → Nat) : Nat := (t.rows.map w).sum

/-! ## Rows by key -/

variable {t : Table ρ} {r r' : ρ}

section

variable (hr : r ∈ t.rows)
include hr

theorem eq_of_pk (hr' : r' ∈ t.rows) (h : pk r = pk r') : r = r' :=
  inj_on_of_nodup_map t.pk_nodup hr hr' h

theorem eq_of_uk (hr' : r' ∈ t.rows) (h : uk r = uk r') : r = r' :=
  inj_on_of_nodup_map t.uk_nodup hr hr' h

theorem exists_append_of_mem : ∃ l₁ l₂, t.rows = l₁ ++ r :: l₂ ∧ ∀ r' ∈ l₁ ++ l₂, pk r' ≠ pk r := by
  obtain ⟨l₁, l₂, hl⟩ := append_of_mem hr
  have hnd := t.pk_nodup
  rw [hl, map_append, map_cons, nodup_middle, nodup_cons, ← map_append] at hnd
  exact ⟨l₁, l₂, hl, fun r' hr' he => hnd.1 (he ▸ mem_map_of_mem hr')⟩

theorem filter_eq_singleton {c : ρ → Bool} (hc : c r = true)
    (h : ∀ r' ∈ t.rows, c r' = true → pk r' = pk r) : t.rows.filter c = [r] := by
  obtain ⟨l₁, l₂, hl, hne⟩ := exists_append_of_mem hr
  have hnil : ∀ l, l ⊆ l₁ ++ l₂ → l.filter c = [] := by
    refine fun l hsub => filter_eq_nil_iff.mpr fun r' hr' hc' => hne r' (hsub hr') (h r' ?_ hc')
    rw [hl]
    have hmem := hsub hr'
    simp only [mem_append, mem_cons] at hmem ⊢
    exact hmem.imp_right .inr
  rw [hl, filter_append, filter_cons_of_pos hc, hnil l₁ (subset_append_left _ _),
    hnil l₂ (subset_append_right _ _), nil_append]

end

theorem exists_of_returning_cons {e : Edit ρ} {rs : List ρ} (h : t.returning e = r' :: rs) :
    ∃ r ∈ t.rows, e.cond r = true ∧ e.set r = r' := by
  have hmem : r' ∈ t.returning e := h ▸ mem_cons_self
  obtain ⟨r, hr, rfl⟩ := mem_map.mp hmem
  obtain ⟨hr, hc⟩ := mem_filter.mp hr
  exact ⟨r, hr, hc, rfl⟩

theorem exists_of_filter_length {c : ρ → Bool} (h : ((t.rows.filter c).length == 1) = true) :
    ∃ r ∈ t.rows, c r = true := by
  obtain ⟨r, hr⟩ := length_eq_one_iff.mp (beq_iff_eq.mp h)
  exact ⟨r, mem_filter.mp (hr ▸ mem_singleton_self r)⟩

theorem exists_of_returning_length {e : Edit ρ} (h : ((t.returning e).length == 1) = true) :
    ∃ r ∈ t.rows, e.cond r = true := by
  rw [returning, length_map] at h
  exact exists_of_filter_length h

section Lookup

variable {t t' : Table ρ} {e : Edit ρ} {i : ι} {k : κ} {r : ρ}

private theorem find?_key_eq_some {α : Type*} [DecidableEq α] {key : ρ → α} {l : List ρ}
    (hl : (l.map key).Nodup) {a : α} : (l.find? fun r => key r = a) = some r ↔ r ∈ l ∧ key r = a := by
  constructor
  · intro h
    exact ⟨mem_of_find?_eq_some h, by simpa using List.find?_some h⟩
  · rintro ⟨hr, rfl⟩
    cases hf : l.find? fun r' => key r' = key r with
    | none =>
      have hne := List.find?_eq_none.mp hf r hr
      simp at hne
    | some r' =>
      have hr' : key r' = key r := by simpa using List.find?_some hf
      exact congrArg some (inj_on_of_nodup_map hl (mem_of_find?_eq_some hf) hr hr')

theorem get_eq_some [DecidableEq ι] : t.get i = some r ↔ r ∈ t.rows ∧ pk r = i :=
  find?_key_eq_some t.pk_nodup

theorem find_eq_some [DecidableEq κ] : t.find k = some r ↔ r ∈ t.rows ∧ uk r = k :=
  find?_key_eq_some t.uk_nodup

theorem get_eq_none [DecidableEq ι] : t.get i = none ↔ ∀ r ∈ t.rows, pk r ≠ i := by
  simp [get]

theorem find_eq_none [DecidableEq κ] : t.find k = none ↔ ∀ r ∈ t.rows, uk r ≠ k := by
  simp [find]

@[simp] theorem get_empty [DecidableEq ι] : (empty : Table ρ).get i = none := rfl

@[simp] theorem find_empty [DecidableEq κ] : (empty : Table ρ).find k = none := rfl

@[simp] theorem find_update [DecidableEq κ] : (t.update e).find k = (t.find k).map e.apply := by
  simp only [find, update, List.find?_map, Function.comp_def, Edit.uk_apply]

theorem find_delete [DecidableEq κ] {c : ρ → Bool} : (t.delete c).find k = (t.find k).filter fun r => !c r := by
  cases h : t.find k with
  | none =>
    refine find_eq_none.mpr fun r hr => ?_
    exact find_eq_none.mp h r (mem_of_mem_filter hr)
  | some r =>
    obtain ⟨hr, rfl⟩ := find_eq_some.mp h
    cases hc : c r with
    | false =>
      rw [Option.filter_some_pos (by simp [hc])]
      exact find_eq_some.mpr ⟨mem_filter.mpr ⟨hr, by simp [hc]⟩, rfl⟩
    | true =>
      rw [Option.filter_some_neg (by simp [hc])]
      refine find_eq_none.mpr fun r' hr' hk => ?_
      obtain ⟨hm, hc'⟩ := mem_filter.mp hr'
      obtain rfl := eq_of_uk hm hr hk
      simp [hc] at hc'

@[simp] theorem get_update [DecidableEq ι] : (t.update e).get i = (t.get i).map e.apply := by
  simp only [get, update, List.find?_map, Function.comp_def, Edit.pk_apply]

/-! An `UPDATE` seen from one key: it meets the row, or leaves it. -/

theorem get_update_pos [DecidableEq ι] (hr : t.get i = some r) (hc : e.cond r = true) :
    (t.update e).get i = some (e.set r) := by
  rw [get_update, hr, Option.map_some, Edit.apply_pos hc]

theorem find_update_pos [DecidableEq κ] (hr : t.find k = some r) (hc : e.cond r = true) :
    (t.update e).find k = some (e.set r) := by
  rw [find_update, hr, Option.map_some, Edit.apply_pos hc]

theorem get_update_neg [DecidableEq ι] (h : ∀ r, t.get i = some r → e.cond r = false) :
    (t.update e).get i = t.get i := by
  rw [get_update]
  cases hr : t.get i with
  | none => rfl
  | some r => exact congrArg some (Edit.apply_neg (h r hr))

theorem find_update_neg [DecidableEq κ] (h : ∀ r, t.find k = some r → e.cond r = false) :
    (t.update e).find k = t.find k := by
  rw [find_update]
  cases hr : t.find k with
  | none => rfl
  | some r => exact congrArg some (Edit.apply_neg (h r hr))

theorem cond_of_get_ne [DecidableEq ι] {c : ρ → Bool} {j : ι} (hc : ∀ r, c r = true → pk r = j) (hj : j ≠ i) (r : ρ)
    (hr : t.get i = some r) : c r = false :=
  Bool.eq_false_iff.mpr fun h => hj ((hc r h).symm.trans (get_eq_some.mp hr).2)

theorem cond_of_find_ne [DecidableEq κ] {c : ρ → Bool} {j : κ} (hc : ∀ r, c r = true → uk r = j) (hj : j ≠ k) (r : ρ)
    (hr : t.find k = some r) : c r = false :=
  Bool.eq_false_iff.mpr fun h => hj ((hc r h).symm.trans (find_eq_some.mp hr).2)

theorem cond_of_changed [DecidableEq ι] (hr : r ∈ t.rows) (hne : (t.update e).get (pk r) ≠ some r) :
    e.cond r = true := by
  cases hc : e.cond r with
  | true => rfl
  | false =>
    refine absurd ?_ hne
    rw [get_update, get_eq_some.mpr ⟨hr, rfl⟩, Option.map_some, Edit.apply_neg hc]

theorem filter_returning [DecidableEq ι] :
    (t.returning e).filter (fun r => pk r = i) = (((t.get i).filter e.cond).map e.set).toList := by
  have hfilter : (t.returning e).filter (fun r => pk r = i) =
      (t.rows.filter fun r => decide (pk r = i) && e.cond r).map e.set := by
    simp [returning, filter_map, comp_def, e.pk_set]
  rw [hfilter]
  cases hget : t.get i with
  | none =>
    have hnone : (t.rows.filter fun r => decide (pk r = i) && e.cond r) = [] :=
      filter_eq_nil_iff.mpr fun r hr => by simp [get_eq_none.mp hget r hr]
    simp [hnone]
  | some r =>
    obtain ⟨hr, rfl⟩ := get_eq_some.mp hget
    cases hc : e.cond r with
    | false =>
      have hnone : (t.rows.filter fun r' => decide (pk r' = pk r) && e.cond r') = [] := by
        refine filter_eq_nil_iff.mpr fun r' hr' => ?_
        by_cases hk : pk r' = pk r
        · rw [eq_of_pk hr' hr hk]
          simp [hc]
        · simp [hk]
      simp [hnone, Option.filter, hc]
    | true =>
      have hone : (t.rows.filter fun r' => decide (pk r' = pk r) && e.cond r') = [r] :=
        filter_eq_singleton hr (by simp [hc]) fun r' _ hc' =>
          of_decide_eq_true (Bool.and_eq_true_iff.mp hc').1
      simp [hone, Option.filter, hc]

variable [DecidableEq ι] [DecidableEq κ]

theorem insert?_eq_some (h : t.insert? r = some t') :
    t.get (pk r) = none ∧ t.find (uk r) = none ∧ t'.rows = r :: t.rows := by
  simp only [insert?] at h
  split at h
  · rename_i hk
    simp only [mem_map, not_exists, not_and] at hk
    cases h
    exact ⟨get_eq_none.mpr hk.1, find_eq_none.mpr hk.2, rfl⟩
  · cases h

theorem exists_insert (hp : ∀ r' ∈ t.rows, pk r' ≠ pk r) (hu : ∀ r' ∈ t.rows, uk r' ≠ uk r) :
    ∃ t', t.insert? r = some t' := by
  have hfresh : pk r ∉ t.rows.map pk ∧ uk r ∉ t.rows.map uk := by
    simp only [mem_map, not_exists, not_and]
    exact ⟨hp, hu⟩
  exact ⟨_, dif_pos hfresh⟩

theorem insert?_eq_none_congr {r' : ρ} (hp : pk r = pk r') (hu : uk r = uk r') :
    t.insert? r = none ↔ t.insert? r' = none := by
  simp [insert?, hp, hu]

theorem find_insert (h : t.insert? r = some t') : t'.find k = if uk r = k then some r else t.find k := by
  obtain ⟨-, -, hrows⟩ := insert?_eq_some h
  by_cases hk : uk r = k <;> simp [find, hrows, hk]

theorem get_insert (h : t.insert? r = some t') : t'.get i = if pk r = i then some r else t.get i := by
  obtain ⟨-, -, hrows⟩ := insert?_eq_some h
  by_cases hi : pk r = i <;> simp [get, hrows, hi]

end Lookup

section Sums

variable {t t' : Table ρ} {e : Edit ρ} {w w' : ρ → Nat} {r : ρ}

theorem sumBy_update : (t.update e).sumBy w = t.sumBy fun r => w (e.apply r) := by
  simp [sumBy, update, comp_def]

theorem sumBy_le (h : ∀ r ∈ t.rows, w r ≤ w' r) : t.sumBy w ≤ t.sumBy w' :=
  sum_le_sum h

theorem sumBy_congr (h : ∀ r ∈ t.rows, w r = w' r) : t.sumBy w = t.sumBy w' :=
  congrArg List.sum (map_congr_left h)

theorem sumBy_insert [DecidableEq ι] [DecidableEq κ] (h : t.insert? r = some t') : t'.sumBy w = w r + t.sumBy w := by
  obtain ⟨-, -, hrows⟩ := insert?_eq_some h
  simp [sumBy, hrows]

theorem sumBy_eq_add_of_mem [DecidableEq ι] (h : r ∈ t.rows) :
    t.sumBy w = w r + t.sumBy fun r' => if pk r' = pk r then 0 else w r' := by
  obtain ⟨l₁, l₂, hl, hne⟩ := exists_append_of_mem h
  have hsum : ∀ l : List ρ, (∀ r' ∈ l, pk r' ≠ pk r) →
      (l.map fun r' => if pk r' = pk r then 0 else w r') = l.map w := by
    intro l hl'
    exact map_congr_left fun r' hr' => by simp [hl' r' hr']
  have h₁ := hsum l₁ fun r' hr' => hne r' (mem_append_left _ hr')
  have h₂ := hsum l₂ fun r' hr' => hne r' (mem_append_right _ hr')
  simp only [sumBy, hl, map_append, map_cons, sum_append, sum_cons, h₁, h₂]
  simp only [↓reduceIte]
  omega

end Sums

end Table

end IbexHarness.Lib
