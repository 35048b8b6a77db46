import Mathlib.Data.List.Nodup

/-! What `hashicorp/golang-lru` documents of its cache. Which entry an addition evicts is left open. -/

namespace IbexHarness.Lib

open List

structure Lru (κ ν : Type) where
  State : Type
  items : State → List (κ × ν)
  empty : State
  peek : State → κ → Option ν
  get : State → κ → State
  /-- also the entry that is evicted -/
  add : State → κ → ν → State × Option (κ × ν)
  remove : State → κ → State
  not_mem_empty : ∀ {p}, p ∉ items empty
  mem_of_peek : ∀ {s k v}, peek s k = some v → (k, v) ∈ items s
  ne_of_peek_eq_none : ∀ {s k p}, peek s k = none → p ∈ items s → p.1 ≠ k
  mem_get : ∀ {s k p}, p ∈ items (get s k) → p ∈ items s
  mem_add : ∀ {s k v p}, p ∈ items (add s k v).1 → p = (k, v) ∨ p ∈ items s
  mem_remove : ∀ {s k p}, p ∈ items (remove s k) ↔ p ∈ items s ∧ p.1 ≠ k

/-- Keeps the entries used last. -/
def Lru.recent {κ ν : Type} [DecidableEq κ] (capacity : Nat) : Lru κ ν where
  State := List (κ × ν)
  items := id
  empty := []
  peek s k := (s.find? (·.1 = k)).map Prod.snd
  get s k := (s.find? (·.1 = k)).toList ++ s.filter (·.1 ≠ k)
  add s k v :=
    let entries := (k, v) :: s.filter (·.1 ≠ k)
    (entries.take capacity, entries[capacity]?)
  remove s k := s.filter (·.1 ≠ k)
  not_mem_empty := not_mem_nil
  mem_of_peek {s k v} h := by
    obtain ⟨⟨k', v'⟩, hfind, rfl⟩ := Option.map_eq_some_iff.mp h
    obtain rfl : k' = k := by simpa using find?_some hfind
    exact mem_of_find?_eq_some hfind
  ne_of_peek_eq_none {s k p} h hp := by
    simpa using find?_eq_none.mp (Option.map_eq_none_iff.mp h) p hp
  mem_get {s k p} h := by
    rcases mem_append.mp h with hp | hp
    · exact mem_of_find?_eq_some (Option.mem_toList.mp hp)
    · exact (mem_filter.mp hp).1
  mem_add {s k v p} h := by
    rcases mem_cons.mp (mem_of_mem_take h) with rfl | hp
    · exact .inl rfl
    · exact .inr (mem_filter.mp hp).1
  mem_remove := by simp

end IbexHarness.Lib
