import VolundCode.Lib.IsoTime

/-!
# The calendar

The date of a day, counted from the first day of 1970, in the calendar that has always had the leap
years of today. `Date.UTC` takes the date of a day, and of any day that is so many after it, back to
the day (`dateUTC_civilDate`), in all years but those it takes for years of the twentieth century.
-/

namespace Ecma

/-- A date, with January as the month 1. -/
@[ext]
structure CivilDate where
  year : ℤ
  month : ℤ
  day : ℤ
  deriving DecidableEq, Repr

/-- The date of a day. The calendar is counted in years that begin in March. -/
def civilDate (n : ℤ) : CivilDate :=
  let days := n + 719468
  let era := days / 146097
  let dayOfEra := days % 146097
  let yearOfEra := (dayOfEra - dayOfEra / 1460 + dayOfEra / 36524 - dayOfEra / 146096) / 365
  let dayOfYear := dayOfEra - (365 * yearOfEra + yearOfEra / 4 - yearOfEra / 100)
  let fromMarch := (5 * dayOfYear + 2) / 153
  let month := if fromMarch < 10 then fromMarch + 3 else fromMarch - 9
  { year := yearOfEra + era * 400 + if month ≤ 2 then 1 else 0
    month := month
    day := dayOfYear - (153 * fromMarch + 2) / 5 + 1 }

/-- The months and days of dates. -/
theorem civilDate_bounds (n : ℤ) :
  (1 ≤ (civilDate n).month ∧ (civilDate n).month ≤ 12) ∧
    1 ≤ (civilDate n).day ∧ (civilDate n).day ≤ 31
  := by
  obtain ⟨yearOfEra, hyear⟩ : ∃ y, y = ((n + 719468) % 146097 - (n + 719468) % 146097 / 1460 +
    (n + 719468) % 146097 / 36524 - (n + 719468) % 146097 / 146096) / 365 := ⟨_, rfl⟩
  obtain ⟨-, hdays⟩ := yearOfEra_bounds (by omega) (by omega) hyear
  simp only [civilDate]
  rw [← hyear]
  split_ifs
  all_goals omega

/-- A date is taken back to the day it is the date of. -/
theorem dayOfDate_civilDate (n : ℤ) :
  dayOfDate (civilDate n).year (civilDate n).month.toNat (civilDate n).day.toNat = n
  := by
  obtain ⟨-, -, h⟩ := dayOfDate_date (n + 719468) rfl rfl rfl rfl rfl
    (rfl : (civilDate n).day.toNat = _) (rfl : (civilDate n).month.toNat = _)
  have hyear : (civilDate n).year = _ + _ * 400 + if (civilDate n).month ≤ 2 then 1 else 0 := rfl
  have hmonth : (civilDate n).month ≤ 2 ↔ (civilDate n).month.toNat ≤ 2 := by omega
  rw [hyear, if_congr hmonth rfl rfl, h]
  omega

/-- Days with the same date are the same. -/
theorem civilDate_injective : Function.Injective civilDate := by
  intro m n h
  rw [← dayOfDate_civilDate m, h, dayOfDate_civilDate]

/-- The days of a date, counted by its year and month. -/
theorem dayFromYear_add_dayFromMonth (year : ℤ) (month day : ℕ) (hmin : 1 ≤ month)
    (hmax : month ≤ 12) :
  dayFromYear year + dayFromMonth year (month - 1) + day - 1 = dayOfDate year month day
  := by
  have hmonth : month = 1 ∨ month = 2 ∨ month = 3 ∨ month = 4 ∨ month = 5 ∨ month = 6 ∨
      month = 7 ∨ month = 8 ∨ month = 9 ∨ month = 10 ∨ month = 11 ∨ month = 12 := by omega
  unfold dayFromYear dayFromMonth dayOfDate
  rcases hmonth with rfl | rfl | hmonth
  · simp
    omega
  · simp
    omega
  rcases hmonth with rfl | rfl | rfl | rfl | rfl | rfl | rfl | rfl | rfl | rfl
  all_goals
    simp
    split_ifs
  all_goals omega

/-- The day of a date, counted by its year and month. -/
theorem civilDate_eq (n : ℤ) :
  dayFromYear (civilDate n).year +
    dayFromMonth (civilDate n).year ((civilDate n).month - 1).toNat + (civilDate n).day - 1 = n
  := by
  obtain ⟨hmonth, hday⟩ := civilDate_bounds n
  have hcount := dayFromYear_add_dayFromMonth (civilDate n).year (civilDate n).month.toNat
    (civilDate n).day.toNat (by omega) (by omega)
  rw [dayOfDate_civilDate, Int.toNat_of_nonneg (by omega)] at hcount
  have hindex : ((civilDate n).month - 1).toNat = (civilDate n).month.toNat - 1 := by omega
  rw [hindex]
  exact hcount

/-- The days before a month leave room for the days of the month. -/
theorem dayFromMonth_bounds (year : ℤ) (month : ℕ) (h : month ≤ 11) :
  0 ≤ dayFromMonth year month ∧
    dayFromYear year + dayFromMonth year month + 31 ≤ dayFromYear (year + 1)
  := by
  have hmonth : month = 0 ∨ month = 1 ∨ month = 2 ∨ month = 3 ∨ month = 4 ∨ month = 5 ∨
      month = 6 ∨ month = 7 ∨ month = 8 ∨ month = 9 ∨ month = 10 ∨ month = 11 := by omega
  unfold dayFromMonth dayFromYear
  rcases hmonth with rfl | rfl | hmonth
  · simp
    omega
  · simp
    omega
  rcases hmonth with rfl | rfl | rfl | rfl | rfl | rfl | rfl | rfl | rfl | rfl
  all_goals
    simp
    split_ifs
  all_goals omega

theorem dayFromYear_mono : Monotone dayFromYear := by
  intro y z hle
  unfold dayFromYear
  omega

/-- The years are in the order of their days. -/
theorem dayFromYear_le_iff {year n : ℤ} :
  dayFromYear year ≤ n ↔ year ≤ (civilDate n).year
  := by
  obtain ⟨hmonth, hday⟩ := civilDate_bounds n
  have heq := civilDate_eq n
  have hbnd := dayFromMonth_bounds (civilDate n).year ((civilDate n).month - 1).toNat (by omega)
  constructor
  · intro h
    by_contra hlt
    have hle : dayFromYear ((civilDate n).year + 1) ≤ dayFromYear year :=
      dayFromYear_mono (by omega)
    omega
  · intro h
    have hle := dayFromYear_mono h
    omega

/-- A time of `Date.UTC` is not before the year it takes the year for. -/
theorem le_dateUTC (year month day hour minute : ℤ) (hmonth : 0 ≤ month) (hmonth' : month ≤ 11)
    (hday : 1 ≤ day) :
  dayFromYear (if 0 ≤ year ∧ year ≤ 99 then 1900 + year else year) * 86400000 + hour * 3600000 +
      minute * 60000 ≤
    dateUTC year month day hour minute
  := by
  obtain ⟨y, hy⟩ : ∃ y, y = if 0 ≤ year ∧ year ≤ 99 then 1900 + year else year := ⟨_, rfl⟩
  have hdiv : month / 12 = 0 := by omega
  have hmod : month % 12 = month := by omega
  have hbnd := dayFromMonth_bounds y month.toNat (by omega)
  unfold dateUTC
  rw [← hy]
  dsimp only
  rw [hdiv, hmod, add_zero]
  omega

/-- `Date.UTC` takes the date of a day, and of any day that is so many after it, back to the day. -/
theorem dateUTC_civilDate {n : ℤ} (shift hour minute : ℤ)
    (h : ¬ (0 ≤ (civilDate n).year ∧ (civilDate n).year ≤ 99)) :
  dateUTC (civilDate n).year ((civilDate n).month - 1) ((civilDate n).day + shift) hour minute =
    (n + shift) * 86400000 + hour * 3600000 + minute * 60000
  := by
  obtain ⟨hmonth, -⟩ := civilDate_bounds n
  have hdiv : ((civilDate n).month - 1) / 12 = 0 := by omega
  have hmod : ((civilDate n).month - 1) % 12 = (civilDate n).month - 1 := by omega
  have heq := civilDate_eq n
  unfold dateUTC
  rw [if_neg h]
  dsimp only
  rw [hdiv, hmod, add_zero]
  have hdays : dayFromYear (civilDate n).year +
      dayFromMonth (civilDate n).year ((civilDate n).month - 1).toNat +
      ((civilDate n).day + shift) - 1 = n + shift := by omega
  rw [hdays]

end Ecma
