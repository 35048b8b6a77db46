import IbexHarness.Lib.JsonParse
import Mathlib.Algebra.Order.Ring.Rat
import Mathlib.Tactic.Ring

/-! The grammar of numbers as the scanner has it, and the rational number that a numeral denotes. -/

namespace IbexHarness.Lib.Json

open List Option

def IsNumber (s : Text) : Prop := scanNumber s = some (s, [])

instance (s : Text) : Decidable (IsNumber s) := inferInstanceAs (Decidable (scanNumber s = some (s, [])))

def isMark (c : Char) : Bool := c == 'e' || c == 'E'

def exponentValue : Text → Int
  | '-' :: s => -(Nat.ofDigitChars 10 s 0 : Int)
  | '+' :: s => Nat.ofDigitChars 10 s 0
  | s => Nat.ofDigitChars 10 s 0

structure Numeral where
  negative : Bool
  int : Text
  frac : Text
  exp : Int

def numeral (s : Text) : Numeral :=
  let negative := s.head? == some '-'
  let s := if negative then s.drop 1 else s
  let significand := s.takeWhile (!isMark ·)
  { negative
    int := significand.takeWhile (· != '.')
    frac := (significand.dropWhile (· != '.')).drop 1
    exp := exponentValue ((s.dropWhile (!isMark ·)).drop 1) }

def Numeral.value (n : Numeral) : ℚ :=
  (if n.negative then -1 else 1) * (Nat.ofDigitChars 10 (n.int ++ n.frac) 0 : ℚ) * 10 ^ (n.exp - n.frac.length)

def numberValue (s : Text) : ℚ := (numeral s).value

def AllDigits (s : Text) : Prop := ∀ c ∈ s, c.isDigit = true

theorem AllDigits.append {s t : Text} (hs : AllDigits s) (ht : AllDigits t) : AllDigits (s ++ t) :=
  fun c hc => (mem_append.mp hc).elim (hs c) (ht c)

theorem allDigits_replicate (n : Nat) : AllDigits (List.replicate n '0') := by
  intro c hc
  rw [eq_of_mem_replicate hc]
  rfl

structure Exponent where
  mark : Char
  sign : Text
  digits : Text
  mark_isMark : isMark mark = true
  sign_cases : sign = [] ∨ sign = ['+'] ∨ sign = ['-']
  digits_ne : digits ≠ []
  allDigits : AllDigits digits

namespace Exponent

def text (e : Exponent) : Text := e.sign ++ e.digits

def value (e : Exponent) : Int := exponentValue e.text

end Exponent

structure Literal where
  negative : Bool
  int : Text
  frac : Text
  exp : Option Exponent
  int_ne : int ≠ []
  int_allDigits : AllDigits int
  frac_allDigits : AllDigits frac

namespace Literal

def sign (n : Literal) : Text := if n.negative then ['-'] else []

def point (n : Literal) : Text := if n.frac = [] then [] else '.' :: n.frac

def expText (n : Literal) : Text := n.exp.elim [] fun e => e.mark :: e.text

def unsigned (n : Literal) : Text := n.int ++ n.point ++ n.expText

def text (n : Literal) : Text := n.sign ++ n.unsigned

def expValue (n : Literal) : Int := n.exp.elim 0 Exponent.value

def NoLeadingZero (n : Literal) : Prop := n.int = ['0'] ∨ n.int.head? ≠ some '0'

end Literal

/-! ## Reading a literal -/

theorem not_isMark_of_isDigit {c : Char} (h : c.isDigit = true) : isMark c = false := by
  rw [isMark, Bool.or_eq_false_iff, beq_eq_false_iff_ne, beq_eq_false_iff_ne]
  constructor <;> rintro rfl <;> simp at h

theorem ne_of_isDigit {c d : Char} (h : c.isDigit = true) (hd : d.isDigit = false) : c ≠ d := by
  rintro rfl
  rw [h] at hd
  cases hd

namespace Literal

variable (n : Literal)

theorem int_cons : ∃ c s, n.int = c :: s ∧ c.isDigit = true ∧ AllDigits s := by
  obtain ⟨c, s, hs⟩ := exists_cons_of_ne_nil n.int_ne
  have hall := n.int_allDigits
  rw [hs] at hall
  exact ⟨c, s, hs, hall c mem_cons_self, fun d hd => hall d (mem_cons_of_mem c hd)⟩

theorem point_head : ∀ c ∈ n.point.head?, c = '.' := by
  unfold point
  split
  · simp
  · simp

theorem expText_head : ∀ c ∈ n.expText.head?, isMark c = true := by
  unfold expText
  cases n.exp with
  | none => simp
  | some e => simp [e.mark_isMark]

theorem not_isMark_significand : ∀ c ∈ n.int ++ n.point, isMark c = false := by
  intro c hc
  rcases mem_append.mp hc with hc | hc
  · exact not_isMark_of_isDigit (n.int_allDigits c hc)
  · unfold point at hc
    split at hc
    · cases hc
    · rcases mem_cons.mp hc with rfl | hc
      · rfl
      · exact not_isMark_of_isDigit (n.frac_allDigits c hc)

theorem takeWhile_unsigned : n.unsigned.takeWhile (!isMark ·) = n.int ++ n.point := by
  refine Text.takeWhile_append_stop (fun c hc => ?_) fun c hc => ?_
  · simp [n.not_isMark_significand c hc]
  · simp [n.expText_head c hc]

theorem dropWhile_unsigned : n.unsigned.dropWhile (!isMark ·) = n.expText := by
  refine Text.dropWhile_append_stop (fun c hc => ?_) fun c hc => ?_
  · simp [n.not_isMark_significand c hc]
  · simp [n.expText_head c hc]

theorem int_ne_point : ∀ c ∈ n.int, (c != '.') = true := by
  intro c hc
  simpa using ne_of_isDigit (n.int_allDigits c hc) rfl

theorem takeWhile_significand : (n.int ++ n.point).takeWhile (· != '.') = n.int :=
  Text.takeWhile_append_stop n.int_ne_point fun c hc => by simp [n.point_head c hc]

theorem dropWhile_significand : (n.int ++ n.point).dropWhile (· != '.') = n.point :=
  Text.dropWhile_append_stop n.int_ne_point fun c hc => by simp [n.point_head c hc]

theorem drop_point : n.point.drop 1 = n.frac := by
  unfold point
  split
  · rename_i h
    simp [h]
  · rfl

theorem unsigned_cons : ∃ c s, n.unsigned = c :: s ∧ c.isDigit = true := by
  obtain ⟨c, s, hs, hc, -⟩ := n.int_cons
  exact ⟨c, s ++ n.point ++ n.expText, by simp [unsigned, hs], hc⟩

theorem head_text : (n.text.head? == some '-') = n.negative := by
  obtain ⟨c, s, hs, hc⟩ := n.unsigned_cons
  have hne : c ≠ '-' := ne_of_isDigit hc rfl
  unfold text sign
  cases n.negative with
  | true => rfl
  | false => simp [hs, hne]

theorem numeral_text : numeral n.text = ⟨n.negative, n.int, n.frac, n.expValue⟩ := by
  have hunsigned : (if n.negative = true then n.text.drop 1 else n.text) = n.unsigned := by
    unfold text sign
    cases n.negative <;> rfl
  have hexp : exponentValue (n.expText.drop 1) = n.expValue := by
    unfold expText expValue
    cases n.exp <;> rfl
  simp only [numeral, n.head_text, hunsigned, takeWhile_unsigned, dropWhile_unsigned, takeWhile_significand,
    dropWhile_significand, drop_point, hexp]

end Literal

section Scan

variable {s lit r : Text}

theorem scanDigits_eq_some (h : scanDigits s = some (lit, r)) : s = lit ++ r ∧ lit ≠ [] ∧ AllDigits lit := by
  unfold scanDigits at h
  split at h
  · cases h
  · rename_i hne
    cases h
    exact ⟨takeWhile_append_dropWhile.symm, by simpa using hne, fun c hc => mem_takeWhile_imp hc⟩

theorem scanInt_eq_some (h : scanInt s = some (lit, r)) : s = lit ++ r ∧ lit ≠ [] ∧ AllDigits lit := by
  cases s with
  | nil => cases h
  | cons c s =>
    simp only [scanInt] at h
    split_ifs at h with hzero hdigit
    · cases h
      exact ⟨by simp [hzero], by simp, forall_mem_singleton.mpr rfl⟩
    · cases h
      refine ⟨by simp, by simp, forall_mem_cons.mpr ⟨hdigit, fun d hd => mem_takeWhile_imp hd⟩⟩

theorem scanFrac_eq_some (h : scanFrac s = some (lit, r)) :
    s = lit ++ r ∧ ∃ frac, AllDigits frac ∧ lit = if frac = [] then [] else '.' :: frac := by
  unfold scanFrac at h
  split at h
  · obtain ⟨⟨digits, rest⟩, hdigits, heq⟩ := map_eq_some_iff.mp h
    obtain ⟨rfl, hne, hall⟩ := scanDigits_eq_some hdigits
    cases heq
    exact ⟨rfl, digits, hall, by rw [if_neg hne]⟩
  · cases h
    exact ⟨rfl, [], forall_mem_nil _, rfl⟩

theorem scanExp_eq_some (h : scanExp s = some (lit, r)) :
    s = lit ++ r ∧ ∃ exp : Option Exponent, lit = exp.elim [] fun e => e.mark :: e.text := by
  cases s with
  | nil =>
    cases h
    exact ⟨rfl, none, rfl⟩
  | cons c s =>
    simp only [scanExp] at h
    split_ifs at h with hc
    · have hmark : isMark c = true := by simpa [isMark] using hc
      split at h
      all_goals
        obtain ⟨⟨digits, rest⟩, hdigits, heq⟩ := map_eq_some_iff.mp h
        obtain ⟨rfl, hne, hall⟩ := scanDigits_eq_some hdigits
        cases heq
      · exact ⟨rfl, some ⟨c, ['+'], digits, hmark, .inr (.inl rfl), hne, hall⟩, rfl⟩
      · exact ⟨rfl, some ⟨c, ['-'], digits, hmark, .inr (.inr rfl), hne, hall⟩, rfl⟩
      · exact ⟨rfl, some ⟨c, [], digits, hmark, .inl rfl, hne, hall⟩, rfl⟩
    · cases h
      exact ⟨rfl, none, rfl⟩

theorem scanUnsigned_eq_some (h : scanUnsigned s = some (lit, r)) (negative : Bool) :
    ∃ n : Literal, n.negative = negative ∧ n.unsigned = lit := by
  simp only [scanUnsigned, bind_eq_bind, bind_eq_some_iff] at h
  obtain ⟨⟨int, s₁⟩, hint, ⟨frac, s₂⟩, hfrac, ⟨exp, s₃⟩, hexp, heq⟩ := h
  cases heq
  obtain ⟨-, hne, hall⟩ := scanInt_eq_some hint
  obtain ⟨-, digits, hdigits, rfl⟩ := scanFrac_eq_some hfrac
  obtain ⟨-, e, rfl⟩ := scanExp_eq_some hexp
  exact ⟨⟨negative, int, digits, e, hne, hall, hdigits⟩, rfl, rfl⟩

theorem IsNumber.exists_literal (h : IsNumber s) : ∃ n : Literal, n.text = s := by
  unfold IsNumber scanNumber at h
  split at h
  · obtain ⟨⟨digits, rest⟩, hdigits, heq⟩ := map_eq_some_iff.mp h
    obtain ⟨n, hneg, hn⟩ := scanUnsigned_eq_some hdigits true
    cases heq
    exact ⟨n, by simp [Literal.text, Literal.sign, hneg, hn]⟩
  · obtain ⟨n, hneg, hn⟩ := scanUnsigned_eq_some h false
    exact ⟨n, by simp [Literal.text, Literal.sign, hneg, hn]⟩

end Scan

namespace Literal

variable (n : Literal)

theorem isDigit_of_isMark {c : Char} (h : isMark c = true) : c.isDigit = false := by
  rw [Bool.eq_false_iff]
  intro hdigit
  rw [not_isMark_of_isDigit hdigit] at h
  cases h

theorem scanExp_expText : scanExp n.expText = some (n.expText, []) := by
  unfold expText
  cases n.exp with
  | none => rfl
  | some e =>
    have hmark : e.mark = 'e' ∨ e.mark = 'E' := by simpa [isMark] using e.mark_isMark
    have hdigits : scanDigits e.digits = some (e.digits, []) := by
      have htake : e.digits.takeWhile Char.isDigit = e.digits := takeWhile_eq_self_iff.mpr e.allDigits
      have hdrop : e.digits.dropWhile Char.isDigit = [] := dropWhile_eq_nil_iff.mpr e.allDigits
      rw [scanDigits, htake, hdrop, if_neg (by simpa using e.digits_ne)]
    obtain ⟨d, ds, hds⟩ := exists_cons_of_ne_nil e.digits_ne
    have hd : d.isDigit = true := e.allDigits d (by simp [hds])
    have hplus : d ≠ '+' := ne_of_isDigit hd rfl
    have hminus : d ≠ '-' := ne_of_isDigit hd rfl
    simp only [Option.elim, scanExp, if_pos hmark, Exponent.text]
    rcases e.sign_cases with hs | hs | hs
    · rw [hds] at hdigits
      simp [hs, hds, hplus, hminus, hdigits]
    · simp [hs, hdigits]
    · simp [hs, hdigits]

theorem scanFrac_tail : scanFrac (n.point ++ n.expText) = some (n.point, n.expText) := by
  have hstop : NoDigit n.expText := fun c hc => isDigit_of_isMark (n.expText_head c hc)
  unfold point
  split
  · unfold scanFrac
    split
    · rename_i s hs
      rw [nil_append] at hs
      exact absurd (n.expText_head '.' (by rw [hs]; rfl)) (by decide)
    · rfl
  · rename_i hne
    simp [scanFrac, scanDigits, takeWhile_digits n.frac_allDigits hstop, dropWhile_digits n.frac_allDigits hstop, hne]

theorem noDigit_tail : NoDigit (n.point ++ n.expText) := by
  intro c hc
  cases hp : n.point with
  | nil =>
    rw [hp] at hc
    exact isDigit_of_isMark (n.expText_head c hc)
  | cons d p =>
    have hd := n.point_head d (by simp [hp])
    simp only [hp, cons_append, List.head?_cons, mem_some_iff] at hc
    subst hc
    subst hd
    rfl

theorem scanUnsigned_unsigned : scanUnsigned n.unsigned = some (n.unsigned, []) ↔ n.NoLeadingZero := by
  obtain ⟨c, s, hs, hc, hall⟩ := n.int_cons
  have htail : n.unsigned = c :: (s ++ (n.point ++ n.expText)) := by simp [unsigned, hs]
  by_cases hzero : c = '0'
  · subst hzero
    cases s with
    | nil =>
      have hnum : n.NoLeadingZero := .inl hs
      simp only [hnum, iff_true]
      rw [htail, nil_append, scanUnsigned]
      simp [scanInt, n.scanFrac_tail, n.scanExp_expText]
    | cons d s =>
      have hd : d.isDigit = true := hall d mem_cons_self
      have hpoint : d ≠ '.' := ne_of_isDigit hd rfl
      have hmark : ¬ (d = 'e' ∨ d = 'E') := by
        have := not_isMark_of_isDigit hd
        simpa [isMark] using this
      have hnum : ¬ n.NoLeadingZero := by simp [NoLeadingZero, hs]
      simp only [hnum, iff_false]
      rw [htail, scanUnsigned]
      simp [scanInt, scanFrac, scanExp, hpoint, hmark]
  · have hnum : n.NoLeadingZero := .inr (by simp [hs, hzero])
    simp only [hnum, iff_true]
    rw [htail, scanUnsigned]
    simp [scanInt, hzero, hc, takeWhile_digits hall n.noDigit_tail, dropWhile_digits hall n.noDigit_tail,
      n.scanFrac_tail, n.scanExp_expText]

theorem isNumber_text : IsNumber n.text ↔ n.NoLeadingZero := by
  rw [← scanUnsigned_unsigned]
  obtain ⟨c, s, hs, hc⟩ := n.unsigned_cons
  have hne : c ≠ '-' := ne_of_isDigit hc rfl
  unfold IsNumber text sign
  cases n.negative with
  | true => simp [scanNumber, Prod.ext_iff]
  | false => simp [scanNumber, hs, hne]

end Literal

theorem ofDigitChars_dropZeros (s t : Text) :
    Nat.ofDigitChars 10 (s.dropWhile (· == '0') ++ t) 0 = Nat.ofDigitChars 10 (s ++ t) 0 := by
  induction s with
  | nil => rfl
  | cons c s ih =>
    by_cases hc : c = '0'
    · subst hc
      rw [dropWhile_cons_of_pos (by rfl), ih, cons_append, Nat.ofDigitChars_cons]
      rfl
    · rw [dropWhile_cons_of_neg (by simpa using hc)]

theorem ofDigitChars_padZeros (k : Nat) (s : Text) :
    Nat.ofDigitChars 10 (List.replicate k '0' ++ s) 0 = Nat.ofDigitChars 10 s 0 := by
  rw [Nat.ofDigitChars_append, Nat.ofDigitChars_replicate_zero, Nat.mul_zero]

end IbexHarness.Lib.Json
