import VolundCode.Lib.Ecma

/-!
# Reading times

`parseTime` reads the texts that `toISOString` writes and gives the time they were written for
(`parseTime_toISOString`), so that two times have two texts. Its calendar is that of
`toISOString`: years begin in March, in eras of 400 years.
-/

namespace Ecma

open List

/-! ### Digits -/

/-- The number that decimal digits stand for. -/
def readDigits (cs : List Char) : ℕ :=
  Nat.ofDigitChars 10 cs 0

@[simp]
theorem readDigits_padStart (width n : ℕ) :
  readDigits (padStart width n) = n
  := by
  rw [readDigits, padStart, Nat.ofDigitChars_append, Nat.ofDigitChars_replicate_zero, Nat.mul_zero,
    Nat.ofDigitChars_ten_toDigits]

/-- A number below `10 ^ width` fills its width. -/
theorem length_padStart {width n : ℕ} (hwidth : 0 < width) (h : n < 10 ^ width) :
  (padStart width n).length = width
  := by
  have hle : (Nat.toDigits 10 n).length ≤ width :=
    (Nat.length_toDigits_le_iff (by decide) hwidth).mpr h
  rw [padStart, length_append, length_replicate]
  omega

/-- A number has only digits. -/
theorem isDigit_of_mem_padStart {width n : ℕ} {c : Char} (h : c ∈ padStart width n) :
  c.isDigit
  := by
  rcases mem_append.mp h with hzero | hdigit
  · rw [eq_of_mem_replicate hzero]
    rfl
  · apply Nat.isDigit_of_mem_toDigits (by decide) (by decide) hdigit

/-- A year as a time begins with it. -/
def readYear : List Char → ℤ
  | '-' :: cs => -readDigits cs
  | '+' :: cs => readDigits cs
  | cs => readDigits cs

@[simp]
theorem readYear_isoYear (y : ℤ) :
  readYear (isoYear y) = y
  := by
  unfold isoYear
  split_ifs with hshort hneg
  · have hplain : readYear (padStart 4 y.toNat) = readDigits (padStart 4 y.toNat) := by
      unfold readYear
      split
      · rename_i cs heq
        have hdigit := isDigit_of_mem_padStart (heq ▸ mem_cons_self)
        cases hdigit
      · rename_i cs heq
        have hdigit := isDigit_of_mem_padStart (heq ▸ mem_cons_self)
        cases hdigit
      · rfl
    rw [hplain, readDigits_padStart]
    apply Int.toNat_of_nonneg hshort.1
  · change -((readDigits (padStart 6 y.natAbs) : ℕ) : ℤ) = y
    rw [readDigits_padStart]
    omega
  · change ((readDigits (padStart 6 y.natAbs) : ℕ) : ℤ) = y
    rw [readDigits_padStart]
    omega

/-! ### Fields -/

/-- The text cut into pieces of the given lengths. -/
def fields : List ℕ → List Char → List (List Char)
  | [], _ => []
  | n :: ns, cs => cs.take n :: fields ns (cs.drop n)

/-- Pieces are found again by their lengths. -/
theorem fields_flatten (pieces : List (List Char)) :
  fields (pieces.map List.length) pieces.flatten = pieces
  := by
  induction pieces with
  | nil => rfl
  | cons piece pieces ih =>
    rw [map_cons, fields, flatten_cons, take_left, drop_left, ih]

/-- The date with the fields of a time, as a number of days. -/
def dayOfDate (year : ℤ) (month day : ℕ) : ℤ :=
  let fromMarch : ℤ := if 3 ≤ month then month - 3 else month + 9
  let year := if 3 ≤ month then year else year - 1
  let yearOfEra := year % 400
  365 * yearOfEra + yearOfEra / 4 - yearOfEra / 100 + ((153 * fromMarch + 2) / 5 + day - 1) +
    year / 400 * 146097 - 719468

/-- The time a text is for, if it is one that `toISOString` writes. -/
def readTime (cs : List Char) : ℤ :=
  match fields [1, 2, 1, 2, 1, 2, 1, 2, 1, 2, 1, 3, 1] (cs.drop (cs.length - 20)) with
  | [_, month, _, day, _, hour, _, minute, _, second, _, ms, _] =>
    dayOfDate (readYear (cs.take (cs.length - 20))) (readDigits month) (readDigits day) * 86400000 +
      readDigits hour * 3600000 + readDigits minute * 60000 + readDigits second * 1000 +
      readDigits ms
  | _ => 0

/-- `Date.parse(s)` for a text that `toISOString` writes. -/
def parseTime (s : String) : Option ℤ :=
  let t := readTime s.toList
  if toISOString t = s then some t else none

/-- The fields of a time are found again in its text. -/
theorem readTime_fields {year : ℤ} {month day hour minute second ms : ℕ} (hmonth : month < 100)
    (hday : day < 100) (hhour : hour < 100) (hminute : minute < 100) (hsecond : second < 100)
    (hms : ms < 1000) :
  readTime (isoYear year ++ '-' :: padStart 2 month ++ '-' :: padStart 2 day ++
      'T' :: padStart 2 hour ++ ':' :: padStart 2 minute ++ ':' :: padStart 2 second ++
      '.' :: padStart 3 ms ++ ['Z']) =
    dayOfDate year month day * 86400000 + hour * 3600000 + minute * 60000 + second * 1000 + ms
  := by
  let pieces : List (List Char) :=
    [['-'], padStart 2 month, ['-'], padStart 2 day, ['T'], padStart 2 hour, [':'],
      padStart 2 minute, [':'], padStart 2 second, ['.'], padStart 3 ms, ['Z']]
  have hwidths : pieces.map List.length = [1, 2, 1, 2, 1, 2, 1, 2, 1, 2, 1, 3, 1] := by
    simp [pieces, length_padStart (by decide : 0 < 2) hmonth,
      length_padStart (by decide : 0 < 2) hday, length_padStart (by decide : 0 < 2) hhour,
      length_padStart (by decide : 0 < 2) hminute, length_padStart (by decide : 0 < 2) hsecond,
      length_padStart (by decide : 0 < 3) hms]
  have hlen : pieces.flatten.length = 20 := by
    rw [length_flatten, hwidths]
    rfl
  have htext : isoYear year ++ '-' :: padStart 2 month ++ '-' :: padStart 2 day ++
      'T' :: padStart 2 hour ++ ':' :: padStart 2 minute ++ ':' :: padStart 2 second ++
      '.' :: padStart 3 ms ++ ['Z'] = isoYear year ++ pieces.flatten := by
    simp [pieces]
  have hyear : (isoYear year ++ pieces.flatten).length - 20 = (isoYear year).length := by
    rw [length_append, hlen]
    omega
  rw [htext]
  unfold readTime
  rw [hyear, take_left, drop_left, ← hwidths, fields_flatten]
  simp [pieces]

/-! ### The calendar -/

/-- The years of an era, and the days of a year, are found from the day of the era. -/
theorem yearOfEra_bounds {dayOfEra yearOfEra : ℤ} (hnonneg : 0 ≤ dayOfEra) (hlt : dayOfEra < 146097)
    (hyear : yearOfEra =
      (dayOfEra - dayOfEra / 1460 + dayOfEra / 36524 - dayOfEra / 146096) / 365) :
  (0 ≤ yearOfEra ∧ yearOfEra < 400) ∧
    0 ≤ dayOfEra - (365 * yearOfEra + yearOfEra / 4 - yearOfEra / 100) ∧
    dayOfEra - (365 * yearOfEra + yearOfEra / 4 - yearOfEra / 100) ≤ 365
  := by
  obtain ⟨last, hlast⟩ : ∃ last, last = dayOfEra / 146096 := ⟨_, rfl⟩
  obtain ⟨century, hcentury⟩ : ∃ century, century = dayOfEra / 36524 := ⟨_, rfl⟩
  obtain ⟨hundreds, hhundreds⟩ : ∃ hundreds, hundreds = yearOfEra / 100 := ⟨_, rfl⟩
  have hbnd : 0 ≤ yearOfEra ∧ yearOfEra < 400 := by omega
  rw [← hcentury, ← hlast] at hyear
  rw [← hhundreds]
  use hbnd
  -- the centuries of the era are linear once it is known in which of them the day is
  have hlasts : last = 0 ∨ last = 1 := by omega
  have hcenturies : century = 0 ∨ century = 1 ∨ century = 2 ∨ century = 3 ∨ century = 4 := by omega
  have hhundreds' : hundreds = 0 ∨ hundreds = 1 ∨ hundreds = 2 ∨ hundreds = 3 := by omega
  rcases hlasts with rfl | rfl <;> rcases hcenturies with rfl | rfl | rfl | rfl | rfl <;>
    rcases hhundreds' with rfl | rfl | rfl | rfl <;> omega

/-- A date is read as the day it is the date of. -/
theorem dayOfDate_date (days : ℤ) {era dayOfEra yearOfEra dayOfYear fromMarch : ℤ} {month day : ℕ}
    (hera : era = days / 146097) (hdayOfEra : dayOfEra = days % 146097)
    (hyear : yearOfEra = (dayOfEra - dayOfEra / 1460 + dayOfEra / 36524 - dayOfEra / 146096) / 365)
    (hdayOfYear : dayOfYear = dayOfEra - (365 * yearOfEra + yearOfEra / 4 - yearOfEra / 100))
    (hfromMarch : fromMarch = (5 * dayOfYear + 2) / 153)
    (hday : day = (dayOfYear - (153 * fromMarch + 2) / 5 + 1).toNat)
    (hmonth : month = (if fromMarch < 10 then fromMarch + 3 else fromMarch - 9).toNat) :
  month < 100 ∧ day < 100 ∧
    dayOfDate (yearOfEra + era * 400 + if month ≤ 2 then 1 else 0) month day = days - 719468
  := by
  obtain ⟨hyears, hdays⟩ := yearOfEra_bounds (by omega) (by omega) hyear
  rw [← hdayOfYear] at hdays
  have hmonths : 0 ≤ fromMarch ∧ fromMarch ≤ 11 := by omega
  have hdayBounds : 0 ≤ dayOfYear - (153 * fromMarch + 2) / 5 ∧
      dayOfYear - (153 * fromMarch + 2) / 5 ≤ 30 := by omega
  have hmonthValue : (fromMarch < 10 ∧ (month : ℤ) = fromMarch + 3) ∨
      (10 ≤ fromMarch ∧ (month : ℤ) = fromMarch - 9) := by
    by_cases hlate : fromMarch < 10
    · left
      rw [hmonth, if_pos hlate]
      omega
    · right
      rw [hmonth, if_neg hlate]
      omega
  have hdayValue : (day : ℤ) = dayOfYear - (153 * fromMarch + 2) / 5 + 1 := by
    rw [hday]
    omega
  have hera' : (yearOfEra + era * 400) % 400 = yearOfEra ∧
      (yearOfEra + era * 400) / 400 = era := by omega
  have hbnd : month < 100 ∧ day < 100 := by omega
  use hbnd.1, hbnd.2
  unfold dayOfDate
  rcases hmonthValue with ⟨hearly, hvalue⟩ | ⟨hlate, hvalue⟩
  · have hmarch : 3 ≤ month := by omega
    have hnot : ¬ month ≤ 2 := by omega
    rw [if_pos hmarch, if_neg hnot, if_pos hmarch, add_zero]
    dsimp only
    rw [hera'.1, hera'.2, hvalue]
    omega
  have hmarch : ¬ 3 ≤ month := by omega
  have hle : month ≤ 2 := by omega
  rw [if_neg hmarch, if_pos hle, if_neg hmarch, add_sub_cancel_right]
  dsimp only
  rw [hera'.1, hera'.2, hvalue]
  omega

/-! ### Times -/

theorem readTime_toISOString (t : ℤ) :
  readTime (toISOString t).toList = t
  := by
  obtain ⟨hmonth, hday, hdate⟩ := dayOfDate_date (t / 86400000 + 719468) rfl rfl rfl rfl rfl rfl rfl
  simp only [toISOString, String.toList_ofList]
  rw [readTime_fields hmonth hday, hdate]
  all_goals omega

/-- `Date.parse` reads the text of a time as the time. -/
@[simp]
theorem parseTime_toISOString (t : ℤ) :
  parseTime (toISOString t) = some t
  := by
  rw [parseTime, readTime_toISOString]
  simp

end Ecma
