import IbexHarness.Lib.Text

/-! Decimals with a least width, signed decimals and hexadecimals of a fixed width; each determines its number. -/

namespace IbexHarness.Lib.Digits

open List

def padded (width n : Nat) : Text :=
  List.replicate (width - (Nat.toDigits 10 n).length) '0' ++ Nat.toDigits 10 n

def signed (width : Nat) (x : Int) : Text :=
  if x < 0 then '-' :: padded width x.natAbs else padded width x.natAbs

def hex : Nat → Nat → Text
  | 0, _ => []
  | width + 1, n => hex width (n / 16) ++ [Nat.digitChar (n % 16)]

variable {width n : Nat}

theorem padded_injective (width : Nat) : Function.Injective (padded width) := by
  have hread (n : Nat) : Nat.ofDigitChars 10 (padded width n) 0 = n := by
    rw [padded, Nat.ofDigitChars_append, Nat.ofDigitChars_replicate_zero, Nat.mul_zero, Nat.ofDigitChars_ten_toDigits]
  intro n m h
  rw [← hread n, ← hread m, h]

theorem length_padded (hw : 0 < width) (hn : n < 10 ^ width) : (padded width n).length = width := by
  have h := (Nat.length_toDigits_le_iff (by decide : 1 < 10) hw).mpr hn
  rw [padded, length_append, length_replicate]
  omega

theorem isDigit_of_mem_padded {c : Char} (h : c ∈ padded width n) : c.isDigit = true := by
  rcases mem_append.mp h with h | h
  · rw [eq_of_mem_replicate h]
    rfl
  · exact Nat.isDigit_of_mem_toDigits (by decide) (by decide) h

theorem padded_ne_nil (width n : Nat) : padded width n ≠ [] :=
  append_ne_nil_of_right_ne_nil _ Nat.toDigits_ne_nil

theorem padded_ne_minus {s : Text} : padded width n ≠ '-' :: s := by
  intro h
  have hdigit := isDigit_of_mem_padded (h ▸ mem_cons_self : '-' ∈ padded width n)
  exact absurd hdigit (by decide)

theorem signed_injective (width : Nat) : Function.Injective (signed width) := by
  intro x y h
  unfold signed at h
  split_ifs at h with hx hy hy
  · have habs := padded_injective width (List.cons.inj h).2
    omega
  · exact absurd h.symm padded_ne_minus
  · exact absurd h padded_ne_minus
  · have habs := padded_injective width h
    omega

theorem toDigits_head (h : n ≠ 0) : ∃ c s, Nat.toDigits 10 n = c :: s ∧ c ≠ '0' ∧ c.isDigit = true := by
  induction n using Nat.strongRecOn with
  | ind n ih =>
    rcases Nat.lt_or_ge n 10 with hlt | hge
    · have hdigit : ∀ n < 10, n ≠ 0 → Nat.digitChar n ≠ '0' ∧ (Nat.digitChar n).isDigit = true := by decide
      exact ⟨n.digitChar, [], Nat.toDigits_of_lt_base hlt, hdigit n hlt h⟩
    · obtain ⟨c, s, hs, hc⟩ := ih (n / 10) (by omega) (by omega)
      exact ⟨c, s ++ [(n % 10).digitChar], by rw [Nat.toDigits_of_base_le (by decide) hge, hs, cons_append], hc⟩

theorem signed_natCast (n : Nat) : signed 0 (n : Int) = Nat.toDigits 10 n := by
  simp [signed, padded]

theorem digitChar_inj : ∀ n < 16, ∀ m < 16, Nat.digitChar n = Nat.digitChar m → n = m := by decide

theorem hex_inj {m : Nat} (hn : n < 16 ^ width) (hm : m < 16 ^ width) (h : hex width n = hex width m) : n = m := by
  induction width generalizing n m with
  | zero => omega
  | succ width ih =>
    obtain ⟨hhigh, hlow⟩ := append_inj' h rfl
    have hdiv := ih (Nat.div_lt_of_lt_mul (by omega)) (Nat.div_lt_of_lt_mul (by omega)) hhigh
    have hmod := digitChar_inj (n % 16) (Nat.mod_lt _ (by decide)) (m % 16) (Nat.mod_lt _ (by decide))
      (List.cons.inj hlow).1
    omega

theorem not_minus_mem_hex (width n : Nat) : '-' ∉ hex width n := by
  have hdigit : ∀ n < 16, Nat.digitChar n ≠ '-' := by decide
  induction width generalizing n with
  | zero => exact not_mem_nil
  | succ width ih =>
    rw [hex, mem_append, mem_singleton]
    rintro (h | h)
    · exact ih (n / 16) h
    · exact hdigit (n % 16) (Nat.mod_lt _ (by decide)) h.symm

end IbexHarness.Lib.Digits
