import Mathlib.Order.Lattice

/-! A tombstone refuses its key until it runs out. -/

namespace IbexHarness.Lib

variable {κ τ : Type} [LinearOrder τ]

structure Tombstones (κ τ : Type) where
  expiry : κ → Option τ

namespace Tombstones

def none : Tombstones κ τ := ⟨fun _ => .none⟩

def live (t : Tombstones κ τ) (k : κ) (now : τ) : Bool := (t.expiry k).any fun e => now < e

def prune (t : Tombstones κ τ) (now : τ) : Tombstones κ τ :=
  ⟨fun k => if t.live k now then t.expiry k else .none⟩

def Refuses (t : Tombstones κ τ) (now : τ) (k : κ) (e : τ) : Prop :=
  now < e → ∃ e', t.expiry k = some e' ∧ e ≤ e'

variable {t : Tombstones κ τ} {now : τ} {k : κ} {e : τ}

theorem Refuses.live (h : t.Refuses now k e) (he : now < e) : t.live k now = true := by
  obtain ⟨e', hk, hle⟩ := h he
  simpa [Tombstones.live, hk] using lt_of_lt_of_le he hle

theorem Refuses.later {now' : τ} (h : t.Refuses now k e) (hle : now ≤ now') : t.Refuses now' k e :=
  fun he => h (lt_of_le_of_lt hle he)

theorem Refuses.prune (h : t.Refuses now k e) : (t.prune now).Refuses now k e := by
  intro he
  simpa [Tombstones.prune, h.live he] using h he

variable [DecidableEq κ]

def bury (t : Tombstones κ τ) (k : κ) (e : τ) : Tombstones κ τ := ⟨Function.update t.expiry k (some e)⟩

def forget (t : Tombstones κ τ) (k : κ) (now : τ) : Tombstones κ τ :=
  if t.live k now then t else ⟨Function.update t.expiry k .none⟩

theorem refuses_bury (t : Tombstones κ τ) (now : τ) (k : κ) (e : τ) : (t.bury k e).Refuses now k e :=
  fun _ => ⟨e, by simp [bury], le_rfl⟩

theorem Refuses.bury {k' : κ} {e' : τ} (h : t.Refuses now k e) (hle : e ≤ e') : (t.bury k' e').Refuses now k e := by
  intro he
  by_cases hk : k = k'
  · exact ⟨e', by simp [Tombstones.bury, hk], hle⟩
  · simpa [Tombstones.bury, hk] using h he

theorem Refuses.forget {k' : κ} (h : t.Refuses now k e) : (t.forget k' now).Refuses now k e := by
  intro he
  unfold Tombstones.forget
  split_ifs with hlive
  · exact h he
  · have hk : k ≠ k' := by
      rintro rfl
      exact hlive (h.live he)
    simpa [hk] using h he

end Tombstones

end IbexHarness.Lib
