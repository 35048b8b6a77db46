import Mathlib.Data.List.Basic
import Mathlib.Tactic.SplitIfs

/-! The committed versions of a table's rows and the transaction that holds the lock of each. -/

namespace IbexHarness.Lib

open Option Function

section

variable {κ ρ θ : Type} [DecidableEq θ]

structure RowStore (κ ρ θ : Type) where
  rows : κ → ρ
  lock : κ → Option θ

namespace RowStore

variable {s s' : RowStore κ ρ θ} {t t' : θ} {k k' : κ} {P : ρ → Prop}

def rollback (s : RowStore κ ρ θ) (t : θ) : RowStore κ ρ θ :=
  { s with lock := fun k => if s.lock k = some t then none else s.lock k }

/-- The transaction has locked `k`, whose committed version has `P`. -/
def Holds (s : RowStore κ ρ θ) (t : θ) (k : κ) (P : ρ → Prop) : Prop := s.lock k = some t ∧ P (s.rows k)

theorem Holds.rollback (hold : s.Holds t k P) (hne : t ≠ t') : (s.rollback t').Holds t k P :=
  ⟨by simp [RowStore.rollback, hold.1, hne], hold.2⟩

variable [DecidableEq κ]

def acquire (s : RowStore κ ρ θ) (t : θ) (k : κ) : Option (RowStore κ ρ θ) :=
  if s.lock k = none ∨ s.lock k = some t then some { s with lock := update s.lock k (some t) } else none

def commit (s : RowStore κ ρ θ) (t : θ) (k : κ) (row : ρ) : RowStore κ ρ θ :=
  { s with rows := update s.rows k row }.rollback t

theorem rows_of_acquire (h : s.acquire t k = some s') : s'.rows = s.rows := by
  unfold acquire at h
  split_ifs at h
  rw [← some.inj h]

theorem lock_of_acquire (h : s.acquire t k = some s') : s'.lock k = some t := by
  unfold acquire at h
  split_ifs at h
  rw [← some.inj h]
  simp

theorem Holds.acquire (hold : s.Holds t k P) (h : s.acquire t' k' = some s') : s'.Holds t k P := by
  refine ⟨?_, (rows_of_acquire h).symm ▸ hold.2⟩
  unfold RowStore.acquire at h
  split_ifs at h with hfree
  rw [← some.inj h]
  by_cases hk : k = k'
  · subst hk
    obtain rfl : t = t' := by simpa [hold.1] using hfree
    simp
  · simpa [hk] using hold.1

theorem Holds.commit (hold : s.Holds t k P) (row : ρ) (hne : t ≠ t') (hlock : s.lock k' = some t') :
    (s.commit t' k' row).Holds t k P := by
  have hk : k ≠ k' := by
    rintro rfl
    exact hne (some.inj (hold.1.symm.trans hlock))
  exact Holds.rollback (s := { s with rows := update s.rows k' row }) ⟨hold.1, by simpa [hk] using hold.2⟩ hne

/-! ## Transactions that write several rows -/

variable {R : ρ → ρ → Prop} {ws : List (κ × ρ)} {row : ρ}

def commitAll (s : RowStore κ ρ θ) (t : θ) (ws : List (κ × ρ)) : RowStore κ ρ θ :=
  { s with rows := fun k => (ws.lookup k).getD (s.rows k) }.rollback t

/-- The rows that the transaction has written are locked by it, and `R` leads from their committed versions to the
new ones. -/
def Drafted (s : RowStore κ ρ θ) (t : θ) (ws : List (κ × ρ)) (R : ρ → ρ → Prop) : Prop :=
  ∀ k row, ws.lookup k = some row → s.Holds t k (R · row)

omit [DecidableEq θ] in
theorem Drafted.nil : s.Drafted t [] R := fun _ _ h => nomatch h

omit [DecidableEq θ] in
theorem Drafted.cons (h : s.Drafted t ws R) (hold : s.Holds t k (R · row)) : s.Drafted t ((k, row) :: ws) R := by
  intro k' row' hl
  rw [List.lookup_cons] at hl
  by_cases hk : k' = k
  · subst hk
    simp only [beq_self_eq_true, some.injEq] at hl
    exact hl ▸ hold
  · simp only [beq_eq_false_iff_ne.mpr hk] at hl
    exact h k' row' hl

theorem Holds.commitAll {S : ρ → ρ → Prop} (hold : s.Holds t k P) (hne : t ≠ t') (hd : s.Drafted t' ws S) :
    (s.commitAll t' ws).Holds t k P := by
  have hk : ws.lookup k = none := by
    cases hl : ws.lookup k with
    | none => rfl
    | some row => exact absurd (some.inj (hold.1.symm.trans (hd k row hl).1)) hne
  exact Holds.rollback (s := { s with rows := fun k => (ws.lookup k).getD (s.rows k) })
    ⟨hold.1, by simpa [hk] using hold.2⟩ hne

theorem Drafted.rows (h : s.Drafted t ws R) (k : κ) :
    (s.commitAll t ws).rows k = s.rows k ∨ R (s.rows k) ((s.commitAll t ws).rows k) := by
  cases hl : ws.lookup k with
  | none => exact .inl (by simp [RowStore.commitAll, RowStore.rollback, hl])
  | some row => exact .inr (by simpa [RowStore.commitAll, RowStore.rollback, hl] using (h k row hl).2)

/-! ## Whose locks they are -/

variable {d : θ → List (κ × ρ)}

/-- A transaction has locked the rows that it has written, and no others. -/
def Tracks (s : RowStore κ ρ θ) (d : θ → List (κ × ρ)) :
    Prop := ∀ k t, s.lock k = some t ↔ ((d t).lookup k).isSome = true

theorem Tracks.acquire (h : s.Tracks d) (ha : s.acquire t k = some s') (row : ρ) :
    s'.Tracks (update d t ((k, row) :: d t)) := by
  unfold RowStore.acquire at ha
  split_ifs at ha with hfree
  cases ha
  intro k' t'
  by_cases ht : t' = t <;> by_cases hk : k' = k
  · subst ht hk
    simp
  · subst ht
    simp [List.lookup_cons, beq_eq_false_iff_ne.mpr hk, hk, h k' t']
  · subst hk
    have hnot : ((d t').lookup k').isSome = false := by
      rw [Bool.eq_false_iff, ne_eq, ← h k' t']
      rcases hfree with hfree | hfree
      · simp [hfree]
      · simp [hfree, Ne.symm ht]
    simp [ht, Ne.symm ht, hnot]
  · simp [ht, hk, h k' t']

theorem Tracks.rollback (h : s.Tracks d) (t : θ) : (s.rollback t).Tracks (update d t []) := by
  intro k' t'
  by_cases ht : t' = t
  · subst ht
    simp [RowStore.rollback]
  · have hk := h k' t'
    by_cases hl : s.lock k' = some t
    · simp only [RowStore.rollback, hl, if_true, update_of_ne ht, ← hk]
      simp [Ne.symm ht]
    · simpa [RowStore.rollback, hl, ht] using hk

theorem Tracks.commitAll (h : s.Tracks d) (t : θ) (ws : List (κ × ρ)) :
    (s.commitAll t ws).Tracks (update d t []) := h.rollback t

theorem Tracks.held_of_acquire_eq_none (h : s.Tracks d) (ha : s.acquire t k = none) :
    ∃ t', t' ≠ t ∧ ((d t').lookup k).isSome = true := by
  unfold RowStore.acquire at ha
  split_ifs at ha with hfree
  obtain ⟨hnone, hself⟩ := not_or.mp hfree
  obtain ⟨t', ht'⟩ := ne_none_iff_exists'.mp hnone
  refine ⟨t', ?_, (h k t').mp ht'⟩
  rintro rfl
  exact hself ht'

end RowStore

end

section

structure SharedLock (θ : Type) where
  exclusive : Option θ
  shared : List θ
  alone : exclusive = none ∨ shared = []

namespace SharedLock

variable {θ : Type}

def free : SharedLock θ := ⟨none, [], .inl rfl⟩

variable {l l' : SharedLock θ} {t t' : θ}

def share (l : SharedLock θ) (t : θ) : Option (SharedLock θ) :=
  if h : l.exclusive = none then some ⟨l.exclusive, t :: l.shared, .inl h⟩ else none

theorem exclusive_share (h : l.share t = some l') : l.exclusive = none ∧ l'.exclusive = none := by
  unfold share at h
  split_ifs at h with hfree
  rw [← some.inj h]
  exact ⟨hfree, hfree⟩

theorem shared_share (h : l.share t = some l') : l'.shared = t :: l.shared := by
  unfold share at h
  split_ifs at h
  rw [← some.inj h]

theorem not_shared_of_exclusive (hold : l.exclusive = some t) : t' ∉ l.shared := by
  rcases l.alone with h | h
  · rw [h] at hold
    cases hold
  · simp [h]

variable [DecidableEq θ]

def acquire (l : SharedLock θ) (t : θ) : Option (SharedLock θ) :=
  if l.exclusive = some t then some l
  else if l.exclusive = none ∧ l.shared = [] then some ⟨some t, [], .inr rfl⟩
  else none

def release (l : SharedLock θ) (t : θ) : SharedLock θ where
  exclusive := if l.exclusive = some t then none else l.exclusive
  shared := l.shared.filter (· ≠ t)
  alone := by
    rcases l.alone with h | h
    · exact .inl (by simp [h])
    · exact .inr (by simp [h])

theorem exclusive_of_acquire (h : l.acquire t = some l') : l'.exclusive = some t := by
  unfold acquire at h
  split_ifs at h with hheld hfree
  · rwa [← some.inj h]
  · rw [← some.inj h]

theorem exclusive_acquire (hold : l.exclusive = some t) (h : l.acquire t' = some l') : l'.exclusive = some t := by
  unfold acquire at h
  split_ifs at h with hheld hfree
  · rwa [← some.inj h]
  · rw [hfree.1] at hold
    cases hold

theorem shared_acquire (hold : t ∈ l.shared) (h : l.acquire t' = some l') : t ∈ l'.shared := by
  unfold acquire at h
  split_ifs at h with hheld hfree
  · rwa [← some.inj h]
  · rw [hfree.2] at hold
    cases hold

theorem exclusive_release (hold : l.exclusive = some t) (hne : t ≠ t') : (l.release t').exclusive = some t := by
  simp [release, hold, hne]

theorem shared_release (hold : t ∈ l.shared) (hne : t ≠ t') : t ∈ (l.release t').shared := by
  simp [release, hold, hne]

theorem shared_of_acquire (h : l.acquire t = some l') : l'.shared = [] := by
  unfold acquire at h
  split_ifs at h with hheld hfree
  · rw [← some.inj h]
    exact l.alone.resolve_left (by simp [hheld])
  · rw [← some.inj h]

theorem acquire_of_exclusive (hold : l.exclusive = some t) : l.acquire t = some l := by
  simp [acquire, hold]

theorem exclusive_of_release (h : (l.release t').exclusive = some t) : l.exclusive = some t ∧ t ≠ t' := by
  simp only [release] at h
  split_ifs at h with heq
  refine ⟨h, ?_⟩
  rintro rfl
  exact heq h

theorem shared_of_release (h : t ∈ (l.release t').shared) : t ∈ l.shared ∧ t ≠ t' := by
  simpa [release] using h

def Held (l : SharedLock θ) (t : θ) : Prop := l.exclusive = some t ∨ t ∈ l.shared

end SharedLock

end

end IbexHarness.Lib
