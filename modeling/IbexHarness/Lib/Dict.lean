import Mathlib.Data.List.Nodup

/-! A dictionary of values that carry their key, as the list of its values in the order in which the keys came. -/

namespace IbexHarness.Lib.Dict

open List

variable {α κ : Type} [DecidableEq κ] (key : α → κ)

def get? (d : List α) (k : κ) : Option α := d.find? fun x => key x = k

def contains (d : List α) (k : κ) : Bool := d.any fun x => key x = k

def set (d : List α) (x : α) : List α :=
  if contains key d (key x) then d.map fun y => if key y = key x then x else y else d ++ [x]

def setDefault (d : List α) (x : α) : List α := if contains key d (key x) then d else d ++ [x]

def update (d xs : List α) : List α := xs.foldl (set key) d

variable {key} {d xs : List α} {x y : α}

theorem contains_eq_true {k : κ} : contains key d k = true ↔ ∃ x ∈ d, key x = k := by
  simp [contains]

theorem get?_eq_none {k : κ} : get? key d k = none ↔ ∀ x ∈ d, key x ≠ k := by
  simp [get?]

theorem get?_eq_some {k : κ} (h : get? key d k = some x) : x ∈ d ∧ key x = k :=
  ⟨mem_of_find?_eq_some h, by simpa using List.find?_some h⟩

theorem map_filterMap_get?_sublist (ks : List κ) : ((ks.filterMap (get? key d)).map key).Sublist ks := by
  induction ks with
  | nil => exact .slnil
  | cons k ks ih =>
    cases hget : get? key d k with
    | none =>
      rw [filterMap_cons_none hget]
      exact ih.cons k
    | some x =>
      rw [filterMap_cons_some hget, map_cons, (get?_eq_some hget).2]
      exact ih.cons_cons k

theorem nodup_eraseDups (ks : List κ) : ks.eraseDups.Nodup := by
  -- the tail loses the head before its own duplicates go, so the induction is on the length
  induction hn : ks.length using Nat.strongRecOn generalizing ks with
  | ind n ih =>
    cases ks with
    | nil => exact nodup_nil
    | cons k ks =>
      rw [eraseDups_cons, nodup_cons]
      refine ⟨fun hk => by simpa using mem_eraseDups.mp hk, ih _ ?_ _ rfl⟩
      rw [← hn, length_cons]
      exact Nat.lt_succ_of_le (length_filter_le ..)

theorem mem_set_iff : y ∈ set key d x ↔ y = x ∨ y ∈ d ∧ key y ≠ key x := by
  unfold set
  split
  case isTrue h =>
    obtain ⟨z, hz, hkey⟩ := contains_eq_true.mp h
    rw [mem_map]
    constructor
    · rintro ⟨w, hw, rfl⟩
      split
      case isTrue => exact .inl rfl
      case isFalse hne => exact .inr ⟨hw, hne⟩
    · rintro (rfl | ⟨hy, hne⟩)
      · exact ⟨z, hz, by rw [if_pos hkey]⟩
      · exact ⟨y, hy, by rw [if_neg hne]⟩
  case isFalse h =>
    rw [mem_append, mem_singleton]
    constructor
    · rintro (hy | rfl)
      · exact .inr ⟨hy, fun hkey => h (contains_eq_true.mpr ⟨y, hy, hkey⟩)⟩
      · exact .inl rfl
    · rintro (rfl | ⟨hy, -⟩)
      · exact .inr rfl
      · exact .inl hy

theorem nodup_keys_set (h : (d.map key).Nodup) : ((set key d x).map key).Nodup := by
  unfold set
  split
  case isTrue =>
    have hkeys : (d.map fun y => if key y = key x then x else y).map key = d.map key := by
      rw [map_map]
      refine map_congr_left fun y _ => ?_
      by_cases hkey : key y = key x
      · simp [hkey]
      · simp [hkey]
    rw [hkeys]
    exact h
  case isFalse hnew =>
    rw [map_append, map_singleton, nodup_append]
    refine ⟨h, nodup_singleton _, ?_⟩
    rintro k hk k' hk' rfl
    obtain ⟨y, hy, hkey⟩ := mem_map.mp hk
    rw [mem_singleton] at hk'
    exact hnew (contains_eq_true.mpr ⟨y, hy, hkey.trans hk'⟩)

theorem mem_update (h : y ∈ update key d xs) : y ∈ d ∨ y ∈ xs := by
  induction xs generalizing d with
  | nil => exact .inl h
  | cons x xs ih =>
    rcases ih h with h | h
    · rcases mem_set_iff.mp h with rfl | ⟨h, -⟩
      exacts [.inr mem_cons_self, .inl h]
    · exact .inr (mem_cons_of_mem x h)

theorem mem_update_of_mem (h : y ∈ d) (hnew : ∀ x ∈ xs, key x ≠ key y) : y ∈ update key d xs := by
  induction xs generalizing d with
  | nil => exact h
  | cons x xs ih =>
    refine ih (mem_set_iff.mpr (.inr ⟨h, ?_⟩)) fun z hz => hnew z (mem_cons_of_mem x hz)
    exact (hnew x mem_cons_self).symm

theorem nodup_keys_update (h : (d.map key).Nodup) : ((update key d xs).map key).Nodup := by
  induction xs generalizing d with
  | nil => exact h
  | cons x xs ih => exact ih (nodup_keys_set h)

theorem update_of_nodup (h : ((d ++ xs).map key).Nodup) : update key d xs = d ++ xs := by
  induction xs generalizing d with
  | nil => exact (append_nil d).symm
  | cons x xs ih =>
    have hnew : contains key d (key x) = false := by
      rw [Bool.eq_false_iff]
      intro hin
      obtain ⟨y, hy, hkey⟩ := contains_eq_true.mp hin
      rw [map_append, nodup_append] at h
      exact h.2.2 (key y) (mem_map_of_mem hy) (key x) (mem_map_of_mem mem_cons_self) hkey
    have hset : set key d x = d ++ [x] := by rw [set, if_neg (by simp [hnew])]
    change update key (set key d x) xs = _
    rw [hset, ih (by simpa using h), append_assoc, singleton_append]

theorem get?_of_take {n : Nat} {k : κ} (h : get? key (d.take n) k = some x) : get? key d k = some x := by
  rw [get?, ← take_append_drop n d, List.find?_append]
  rw [get?] at h
  rw [h, Option.some_or]

end IbexHarness.Lib.Dict
