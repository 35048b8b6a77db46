import IbexHarness.Lib.Digits

/-! The date and the time of day of an instant in UTC, and their fixed-width text. -/

namespace IbexHarness.Lib.Calendar

open List Digits

structure YearDay where
  year : Int
  yday : Nat

def daysBeforeYear (year : Int) : Int :=
  let y := year - 1
  365 * y + y / 4 - y / 100 + y / 400

/-- The year and day of the day `d` days after 1 January of year 1: cycles of 400, 100, 4 and 1 years are
cut off in turn, and the last day of a leap year does not begin a new one. -/
def yearDay (d : Int) : YearDay :=
  let n₄₀₀ := d / 146097
  let d₁ := d % 146097
  let n₁₀₀ := d₁ / 36524 - d₁ / 36524 / 4
  let d₂ := d₁ - 36524 * n₁₀₀
  let n₄ := d₂ / 1461
  let d₃ := d₂ % 1461
  let n₁ := d₃ / 365 - d₃ / 365 / 4
  { year := 400 * n₄₀₀ + 100 * n₁₀₀ + 4 * n₄ + n₁ + 1
    yday := (d₃ - 365 * n₁).toNat }

theorem exists_cycles (d : Int) : ∃ n₄₀₀ n₁₀₀ n₄ n₁ : Int,
    (0 ≤ n₁₀₀ ∧ n₁₀₀ ≤ 3) ∧ (0 ≤ n₄ ∧ n₄ ≤ 24) ∧ (0 ≤ n₁ ∧ n₁ ≤ 3) ∧
    (yearDay d).year = 400 * n₄₀₀ + 100 * n₁₀₀ + 4 * n₄ + n₁ + 1 ∧ (yearDay d).yday < 366 ∧
    d = 146097 * n₄₀₀ + 36524 * n₁₀₀ + 1461 * n₄ + 365 * n₁ + (yearDay d).yday := by
  have h₁ : 0 ≤ d % 146097 ∧ d % 146097 < 146097 := by omega
  have hd := Int.mul_ediv_add_emod d 146097
  generalize hd₁ : d % 146097 = d₁ at h₁ hd
  have h₂ : 0 ≤ d₁ / 36524 - d₁ / 36524 / 4 ∧ d₁ / 36524 - d₁ / 36524 / 4 ≤ 3 ∧
      0 ≤ d₁ - 36524 * (d₁ / 36524 - d₁ / 36524 / 4) ∧
      d₁ - 36524 * (d₁ / 36524 - d₁ / 36524 / 4) ≤ 36524 := by omega
  refine ⟨d / 146097, d₁ / 36524 - d₁ / 36524 / 4, ?_⟩
  simp only [yearDay, hd₁]
  generalize d₁ / 36524 - d₁ / 36524 / 4 = n₁₀₀ at h₂ ⊢
  generalize hd₂ : d₁ - 36524 * n₁₀₀ = d₂ at h₂ ⊢
  refine ⟨d₂ / 1461, d₂ % 1461 / 365 - d₂ % 1461 / 365 / 4, ⟨h₂.1, h₂.2.1⟩, ?_⟩
  have h₃ : 0 ≤ d₂ % 1461 ∧ d₂ % 1461 < 1461 := by omega
  have hd' := Int.mul_ediv_add_emod d₂ 1461
  generalize d₂ % 1461 = d₃ at h₃ hd' ⊢
  refine ⟨?_, ?_, rfl, ?_, ?_⟩ <;> omega

theorem yday_lt (d : Int) : (yearDay d).yday < 366 := by
  obtain ⟨_, _, _, _, -, -, -, -, h, -⟩ := exists_cycles d
  exact h

theorem daysBeforeYear_yearDay (d : Int) : daysBeforeYear (yearDay d).year + (yearDay d).yday = d := by
  obtain ⟨n₄₀₀, n₁₀₀, n₄, n₁, h₁₀₀, h₄, h₁, hyear, -, hd⟩ := exists_cycles d
  have hdiv₄ : (400 * n₄₀₀ + 100 * n₁₀₀ + 4 * n₄ + n₁) / 4 = 100 * n₄₀₀ + 25 * n₁₀₀ + n₄ := by omega
  have hdiv₁₀₀ : (400 * n₄₀₀ + 100 * n₁₀₀ + 4 * n₄ + n₁) / 100 = 4 * n₄₀₀ + n₁₀₀ := by omega
  have hdiv₄₀₀ : (400 * n₄₀₀ + 100 * n₁₀₀ + 4 * n₄ + n₁) / 400 = n₄₀₀ := by omega
  simp only [daysBeforeYear, hyear, Int.add_sub_cancel, hdiv₄, hdiv₁₀₀, hdiv₄₀₀]
  omega

theorem one_le_year {d : Int} (h : 0 ≤ d) : 1 ≤ (yearDay d).year := by
  have hd := daysBeforeYear_yearDay d
  have hlt := yday_lt d
  simp only [daysBeforeYear] at hd
  omega

def isLeap (year : Int) : Bool := year % 4 = 0 && (year % 100 ≠ 0 || year % 400 = 0)

def daysBefore : List Nat := [0, 31, 59, 90, 120, 151, 181, 212, 243, 273, 304, 334, 365]

structure MonthDay where
  month : Nat
  day : Nat

def monthDay (leap : Bool) (yday : Nat) : MonthDay :=
  if leap && yday == 59 then ⟨2, 29⟩
  else
    let day := if leap && 59 < yday then yday - 1 else yday
    let m := day / 31
    -- a month has at most 31 days, so the estimate is at most one too low
    if daysBefore.getD (m + 1) 0 ≤ day then ⟨m + 2, day - daysBefore.getD (m + 1) 0 + 1⟩
    else ⟨m + 1, day - daysBefore.getD m 0 + 1⟩

def dayOfYear (leap : Bool) (d : MonthDay) : Nat :=
  daysBefore.getD (d.month - 1) 0 + (d.day - 1) + if leap && 2 < d.month then 1 else 0

theorem dayOfYear_monthDay : ∀ leap, ∀ yday < 366, dayOfYear leap (monthDay leap yday) = yday := by
  decide +kernel

theorem monthDay_lt : ∀ leap, ∀ yday < 366, (monthDay leap yday).month < 100 ∧ (monthDay leap yday).day < 100 := by
  decide +kernel

/-! ## Instants, in microseconds from 1 January 1970 -/

def dayNumber (us : Int) : Int := us / 86400000000 + 719162

def timeOfDay (us : Int) : Nat := (us % 86400000000).toNat

theorem eq_of_dayNumber_eq {us vs : Int} (hday : dayNumber us = dayNumber vs)
    (htime : timeOfDay us = timeOfDay vs) : us = vs := by
  simp only [dayNumber, timeOfDay] at hday htime
  omega

def dateText (us : Int) : Text :=
  let yd := yearDay (dayNumber us)
  let md := monthDay (isLeap yd.year) yd.yday
  Digits.padded 2 md.month ++ '-' :: Digits.padded 2 md.day

def timeText (t : Nat) : Text :=
  Digits.padded 2 (t / 3600000000) ++ ':' :: Digits.padded 2 (t / 60000000 % 60) ++
    ':' :: Digits.padded 2 (t / 1000000 % 60) ++ '.' :: Digits.padded 6 (t % 1000000)

/-- An instant as `YYYY-MM-DDTHH:MM:SS.ffffffZ`, with the year as `yearText` writes it. -/
def instantText (yearText : Int → Text) (us : Int) : Text :=
  yearText (yearDay (dayNumber us)).year ++ ('-' :: (dateText us ++ ('T' :: (timeText (timeOfDay us) ++ ['Z']))))

theorem padded_append_inj {width n m : Nat} {s t : Text} (hw : 0 < width) (hn : n < 10 ^ width)
    (hm : m < 10 ^ width) (h : padded width n ++ s = padded width m ++ t) : n = m ∧ s = t := by
  obtain ⟨hpad, hrest⟩ := append_inj h (by rw [length_padded hw hn, length_padded hw hm])
  exact ⟨padded_injective width hpad, hrest⟩

theorem timeOfDay_lt (us : Int) : timeOfDay us < 86400000000 := by
  unfold timeOfDay
  omega

theorem length_dateText (us : Int) : (dateText us).length = 5 := by
  have hlt := monthDay_lt (isLeap (yearDay (dayNumber us)).year) _ (yday_lt (dayNumber us))
  simp [dateText, length_padded, hlt]

theorem length_timeText {t : Nat} (h : t < 86400000000) : (timeText t).length = 15 := by
  have hhour : t / 3600000000 < 10 ^ 2 := by omega
  have hmin : t / 60000000 % 60 < 10 ^ 2 := by omega
  have hsec : t / 1000000 % 60 < 10 ^ 2 := by omega
  have hus : t % 1000000 < 10 ^ 6 := by omega
  simp [timeText, length_padded Nat.two_pos hhour, length_padded Nat.two_pos hmin,
    length_padded Nat.two_pos hsec, length_padded (by decide) hus]

theorem timeText_inj {t u : Nat} (ht : t < 86400000000) (hu : u < 86400000000) (h : timeText t = timeText u) :
    t = u := by
  simp only [timeText, append_assoc, cons_append] at h
  obtain ⟨hhour, h⟩ := padded_append_inj (by decide) (by omega) (by omega) h
  obtain ⟨hmin, h⟩ := padded_append_inj (by decide) (by omega) (by omega) (List.cons.inj h).2
  obtain ⟨hsec, h⟩ := padded_append_inj (by decide) (by omega) (by omega) (List.cons.inj h).2
  have hus := padded_injective 6 (List.cons.inj h).2
  omega

theorem instantText_injective {yearText : Int → Text} (hyear : Function.Injective yearText) :
    Function.Injective (instantText yearText) := by
  intro us vs h
  have hlength (us : Int) : ('-' :: (dateText us ++ ('T' :: (timeText (timeOfDay us) ++ ['Z'])))).length = 23 := by
    simp [length_dateText, length_timeText (timeOfDay_lt us)]
  -- all but the year has a fixed width, so the text is read from its end
  obtain ⟨hy, h⟩ := append_inj' h (by rw [hlength, hlength])
  obtain ⟨hdate, h⟩ := append_inj (List.cons.inj h).2 (by rw [length_dateText, length_dateText])
  have htime := timeText_inj (timeOfDay_lt us) (timeOfDay_lt vs) (append_cancel_right (List.cons.inj h).2)
  refine eq_of_dayNumber_eq ?_ htime
  have hyear := hyear hy
  have hlt := monthDay_lt (isLeap (yearDay (dayNumber us)).year) _ (yday_lt (dayNumber us))
  have hlt' := monthDay_lt (isLeap (yearDay (dayNumber vs)).year) _ (yday_lt (dayNumber vs))
  obtain ⟨hmonth, hday⟩ := padded_append_inj (by decide) hlt.1 hlt'.1 hdate
  have hday := padded_injective 2 (List.cons.inj hday).2
  have hyday : (yearDay (dayNumber us)).yday = (yearDay (dayNumber vs)).yday := by
    rw [← dayOfYear_monthDay (isLeap (yearDay (dayNumber us)).year) _ (yday_lt (dayNumber us)),
      ← dayOfYear_monthDay (isLeap (yearDay (dayNumber vs)).year) _ (yday_lt (dayNumber vs)), dayOfYear,
      dayOfYear, hmonth, hday, hyear]
  rw [← daysBeforeYear_yearDay (dayNumber us), ← daysBeforeYear_yearDay (dayNumber vs), hyear, hyday]

end IbexHarness.Lib.Calendar
