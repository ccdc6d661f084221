import VolundCode.AppRuntime.Scheduler
import VolundCode.Lib.Calendar

/-!
# Next runs in a time zone

The clocks of a time zone are those of its offset from UTC. In a zone of a constant offset
`computeNextRunAt` finds the next time at which the clocks show the time of a schedule, unless the
offset is 12 hours or more: noon in UTC, at which it reads the date of a day, is then on the day
after, and a time that is still to come on the day it starts from is passed over
(`nextRun_iff`). In the first century the years are taken for those of the twentieth.
-/

namespace Scheduler

open Ecma

/-! ### Clocks -/

/-- A year as it is printed, without its era. -/
def eraYear (year : ℤ) : ℤ :=
  if year ≤ 0 then 1 - year else year

/-- What a clock shows at a local time. -/
def clockAt (localMs : ℤ) : WallClock :=
  let date := civilDate (localMs / 86400000)
  { year := eraYear date.year
    month := date.month
    day := date.day
    hour := localMs / 3600000 % 24
    minute := localMs / 60000 % 60
    weekday := ((localMs / 86400000 + 4) % 7).toNat }

/-- The local time, for an offset of so many minutes at each time. -/
def localTime (offset : ℤ → ℤ) (epochMs : ℤ) : ℤ :=
  epochMs + offset epochMs * 60000

/-- The clocks of a time zone. -/
def zone (offset : ℤ → ℤ) : Intl where
  hostTimeZone := "UTC"
  wallClockAt epochMs _ := clockAt (localTime offset epochMs)

/-- A constant offset from -12:00 to +14:00. -/
structure FixedOffset where
  minutes : ℤ
  min : -720 ≤ minutes
  max : minutes ≤ 840

/-- The offset at each time. -/
def FixedOffset.function (off : FixedOffset) : ℤ → ℤ :=
  fun _ => off.minutes

/-- A daily schedule, or a weekly one with some weekday. -/
structure WallSchedule where
  time : Hhmm
  weekdays : Option (List (Fin 7))
  nonempty : weekdays ≠ some []

/-- The schedule as a task has it. -/
def WallSchedule.schedule (w : WallSchedule) : TaskSchedule :=
  match w.weekdays with
  | none => .daily w.time
  | some weekdays => .weekly weekdays w.time

/-- The next run after a time. -/
def WallSchedule.next (w : WallSchedule) (offset : ℤ → ℤ) (afterMs : ℤ) (timezone : Option String) :
    Option ℤ :=
  computeNextRunAt (zone offset) w.schedule afterMs timezone

/-! ### What the clocks have to show -/

/-- A weekday is one of those asked for. -/
def WallSchedule.Allows (w : WallSchedule) (weekday : ℕ) : Prop :=
  ∀ weekdays, w.weekdays = some weekdays → ∃ d ∈ weekdays, d.val = weekday

/-- The local wall clock shows the time of the schedule on a weekday asked for. -/
structure WallSchedule.Shows (w : WallSchedule) (offset : ℤ → ℤ) (epochMs : ℤ) : Prop where
  hour : (clockAt (localTime offset epochMs)).hour = w.time.hour
  minute : (clockAt (localTime offset epochMs)).minute = w.time.minute
  weekday : w.Allows (clockAt (localTime offset epochMs)).weekday

/-- The smallest whole minute past a time at which the clock shows the time of the schedule. -/
def WallSchedule.IsNext (w : WallSchedule) (offset : ℤ → ℤ) (afterMs at_ : ℤ) : Prop :=
  IsLeast {t | afterMs < t ∧ 60000 ∣ t ∧ w.Shows offset t} at_

/-- The local day of a time. -/
def localDay (offset : ℤ → ℤ) (epochMs : ℤ) : ℤ :=
  localTime offset epochMs / 86400000

/-- The local year of a time. -/
def localYear (offset : ℤ → ℤ) (epochMs : ℤ) : ℤ :=
  (civilDate (localDay offset epochMs)).year

/-- The time of the schedule is still to come on the local day, which is one asked for. -/
def WallSchedule.DueToday (w : WallSchedule) (offset : ℤ → ℤ) (afterMs : ℤ) : Prop :=
  w.Allows (clockAt (localTime offset afterMs)).weekday ∧
    localTime offset afterMs % 86400000 < w.time.hour * 3600000 + w.time.minute * 60000

/-- The next run is computed. -/
def WallSchedule.Right (w : WallSchedule) (offset : ℤ → ℤ) (afterMs : ℤ)
    (timezone : Option String) : Prop :=
  ∃ at_, w.next offset afterMs timezone = some at_ ∧ w.IsNext offset afterMs at_

/-- A time that is computed lies past the one it is computed from, and the clock shows the time of
the schedule there; in the common era, and with offsets of less than a day, the weekday is one asked
for. -/
structure WallSchedule.Matches (w : WallSchedule) (offset : ℤ → ℤ) (afterMs at_ : ℤ) : Prop where
  past : afterMs < at_
  hour : (clockAt (localTime offset at_)).hour = w.time.hour
  minute : (clockAt (localTime offset at_)).minute = w.time.minute
  weekday : 1 ≤ localYear offset afterMs → (∀ t, |offset t| < 1440) →
    w.Allows (clockAt (localTime offset at_)).weekday

/-! ### One day -/

/-- The local time that is shown, less the offset, until the offset does not change any more. -/
def solved (intl : Intl) (timeZone : String) (wallMs afterMs : ℤ) : ℤ :=
  let solve := fun candidate => wallMs - tzOffsetMs intl candidate timeZone
  solve (solve (solve (solve afterMs)))

/-- The time found on a day: its weekday is one asked for, the time is past the one it is looked for
from, and the clock shows the date of the day and the time of the schedule there. -/
theorem wallOccurrence_eq_some {intl : Intl} {target : Hhmm} {weekdays : Option (List (Fin 7))}
    {afterMs at_ : ℤ} {timeZone : String} {startDay day shown : WallClock} {k : ℕ}
    (hday : intl.wallClockAt (dateUTC startDay.year (startDay.month - 1) (startDay.day + k) 12 0)
      timeZone = day)
    (hshown : intl.wallClockAt (solved intl timeZone
      (dateUTC day.year (day.month - 1) day.day target.hour target.minute) afterMs)
      timeZone = shown) :
  wallOccurrence intl target weekdays afterMs timeZone startDay k = some at_ ↔
    ¬ (weekdays.any fun ds => ¬ ds.any fun d => d.val == day.weekday) = true ∧ afterMs < at_ ∧
      at_ = solved intl timeZone
        (dateUTC day.year (day.month - 1) day.day target.hour target.minute) afterMs ∧
      shown.year = day.year ∧ shown.month = day.month ∧ shown.day = day.day ∧
      shown.hour = target.hour ∧ shown.minute = target.minute
  := by
  obtain rfl := hday
  obtain rfl := hshown
  simp only [wallOccurrence, Option.ite_none_left_eq_some, Option.ite_none_right_eq_some,
    Option.some.injEq, not_le]
  constructor
  · rintro ⟨hany, hlt, hmatch, rfl⟩
    exact ⟨hany, hlt, rfl, hmatch⟩
  · rintro ⟨hany, hlt, rfl, hmatch⟩
    exact ⟨hany, hlt, hmatch, rfl⟩

namespace WallSchedule

variable {w : WallSchedule} {off : FixedOffset}

/-- The time of the schedule on a local day. -/
def slot (w : WallSchedule) (off : FixedOffset) (n : ℤ) : ℤ :=
  n * 86400000 + w.time.hour * 3600000 + w.time.minute * 60000 - off.minutes * 60000

/-- The weekday of a day. -/
def weekdayOf (n : ℤ) : ℕ :=
  ((n + 4) % 7).toNat

theorem localTime_slot (n : ℤ) :
  localTime off.function (w.slot off n) =
    n * 86400000 + w.time.hour * 3600000 + w.time.minute * 60000
  := by
  rw [localTime, slot, FixedOffset.function]
  ring

/-- The whole minutes at which the clock shows the time of the schedule are those of the days. -/
theorem dvd_and_shows_iff {t : ℤ} :
  60000 ∣ t ∧ w.Shows off.function t ↔ ∃ n, t = w.slot off n ∧ w.Allows (weekdayOf n)
  := by
  have hhour := w.time.hour_lt
  have hminute := w.time.minute_lt
  constructor
  · rintro ⟨hdvd, hshows⟩
    use localDay off.function t
    have hh := hshows.hour
    have hm := hshows.minute
    constructor
    · rw [slot, localDay]
      simp only [clockAt, localTime, FixedOffset.function] at hh hm ⊢
      omega
    · exact hshows.weekday
  rintro ⟨n, rfl, hallow⟩
  have hday : localTime off.function (w.slot off n) / 86400000 = n := by
    rw [localTime_slot]
    omega
  constructor
  · rw [slot]
    omega
  constructor
  · rw [localTime_slot]
    simp only [clockAt]
    omega
  · rw [localTime_slot]
    simp only [clockAt]
    omega
  have hweekday : (clockAt (localTime off.function (w.slot off n))).weekday = weekdayOf n := by
    simp only [clockAt, hday, weekdayOf]
  rw [hweekday]
  apply hallow

theorem eraYear_of_pos {year : ℤ} (h : 1 ≤ year) :
  eraYear year = year
  := by
  rw [eraYear, if_neg (by omega)]

variable {n : ℤ}

/-- The years from the first century on are the same on later days. -/
theorem year_le_of_le {year m : ℤ} (h : year ≤ (civilDate m).year) (hle : m ≤ n) :
  year ≤ (civilDate n).year
  := dayFromYear_le_iff.mp ((dayFromYear_le_iff.mpr h).trans hle)

/-- A date that a clock shows, taken for a time in UTC. -/
theorem dateUTC_clockAt {localMs : ℤ} (h : 100 ≤ (civilDate (localMs / 86400000)).year)
    (shift hour minute : ℤ) :
  dateUTC (clockAt localMs).year ((clockAt localMs).month - 1) ((clockAt localMs).day + shift)
      hour minute =
    (localMs / 86400000 + shift) * 86400000 + hour * 3600000 + minute * 60000
  := by
  have hyear : (clockAt localMs).year = (civilDate (localMs / 86400000)).year :=
    eraYear_of_pos (by omega)
  rw [hyear]
  apply dateUTC_civilDate
  omega

/-- The offset is found from the clock. -/
theorem tzOffsetMs_zone {epochMs : ℤ} (h : 100 ≤ localYear off.function epochMs)
    (timeZone : String) :
  tzOffsetMs (zone off.function) epochMs timeZone = off.minutes * 60000
  := by
  have hutc := dateUTC_clockAt h 0 (clockAt (localTime off.function epochMs)).hour
    (clockAt (localTime off.function epochMs)).minute
  rw [add_zero, add_zero] at hutc
  rw [tzOffsetMs]
  dsimp only [zone]
  rw [hutc]
  simp only [clockAt, localTime, FixedOffset.function]
  omega

/-- A weekday is passed over if it is not asked for. -/
theorem any_weekdays_iff (w : WallSchedule) (weekday : ℕ) :
  (w.weekdays.any fun ds => ¬ ds.any fun d => d.val == weekday) = true ↔ ¬ w.Allows weekday
  := by
  unfold Allows
  cases w.weekdays with
  | none | some weekdays => simp

/-- How many days after the day in UTC the local date at noon is. -/
def noonShift (off : FixedOffset) : ℤ :=
  (off.minutes + 720) / 1440

variable {afterMs at_ : ℤ}

/-- The time found on a day is that of the schedule, on the local day of noon in UTC. -/
theorem wallOccurrence_zone (h : 100 ≤ localYear off.function afterMs) (timeZone : String) (k : ℕ) :
  wallOccurrence (zone off.function) w.time w.weekdays afterMs timeZone
      (clockAt (localTime off.function afterMs)) k = some at_ ↔
    w.Allows (weekdayOf (localDay off.function afterMs + k + noonShift off)) ∧
      afterMs < at_ ∧ at_ = w.slot off (localDay off.function afterMs + k + noonShift off)
  := by
  have hmin := off.min
  have hmax := off.max
  have hhour := w.time.hour_lt
  have hminute := w.time.minute_lt
  obtain ⟨n, hn⟩ : ∃ n, n = localDay off.function afterMs + k + noonShift off := ⟨_, rfl⟩
  rw [← hn]
  have hnoon : (localTime off.function ((localDay off.function afterMs + k) * 86400000 +
      12 * 3600000 + 0 * 60000)) / 86400000 = n := by
    rw [hn, localTime, noonShift, FixedOffset.function]
    omega
  have hyear : 100 ≤ (civilDate n).year := by
    apply year_le_of_le h
    rw [hn, noonShift]
    omega
  have hday : (zone off.function).wallClockAt (dateUTC
      (clockAt (localTime off.function afterMs)).year
      ((clockAt (localTime off.function afterMs)).month - 1)
      ((clockAt (localTime off.function afterMs)).day + k) 12 0) timeZone =
      clockAt (localTime off.function ((localDay off.function afterMs + k) * 86400000 +
        12 * 3600000 + 0 * 60000)) := by
    rw [dateUTC_clockAt h]
    rfl
  obtain ⟨noon, hnoonEq⟩ : ∃ noon, noon = localTime off.function
    ((localDay off.function afterMs + k) * 86400000 + 12 * 3600000 + 0 * 60000) := ⟨_, rfl⟩
  rw [← hnoonEq] at hnoon hday
  have hweekday : (clockAt noon).weekday = weekdayOf n := by
    simp only [clockAt, hnoon, weekdayOf]
  have hwall : dateUTC (clockAt noon).year ((clockAt noon).month - 1) (clockAt noon).day
      w.time.hour w.time.minute = n * 86400000 + w.time.hour * 3600000 + w.time.minute * 60000 := by
    have hutc := dateUTC_clockAt (hnoon.symm ▸ hyear) 0 w.time.hour w.time.minute
    rw [add_zero, add_zero, hnoon] at hutc
    apply hutc
  have hslotDay : localDay off.function (w.slot off n) = n := by
    rw [localDay, localTime_slot]
    omega
  have hsolve : ∀ e, 100 ≤ localYear off.function e →
      n * 86400000 + (w.time.hour : ℤ) * 3600000 + (w.time.minute : ℤ) * 60000 -
        tzOffsetMs (zone off.function) e timeZone = w.slot off n := by
    intro e he
    rw [tzOffsetMs_zone he, slot]
  have hslotYear : 100 ≤ localYear off.function (w.slot off n) := by
    rw [localYear, hslotDay]
    apply hyear
  have hsolved : solved (zone off.function) timeZone
      (n * 86400000 + w.time.hour * 3600000 + w.time.minute * 60000) afterMs = w.slot off n := by
    unfold solved
    dsimp only
    rw [hsolve afterMs h, hsolve _ hslotYear, hsolve _ hslotYear, hsolve _ hslotYear]
  have hshown : (zone off.function).wallClockAt (w.slot off n) timeZone =
      clockAt (n * 86400000 + w.time.hour * 3600000 + w.time.minute * 60000) := by
    rw [← localTime_slot]
    rfl
  have hdayOf : (n * 86400000 + (w.time.hour : ℤ) * 3600000 + (w.time.minute : ℤ) * 60000) /
      86400000 = n := by omega
  rw [← hwall] at hsolved
  rw [← hsolved] at hshown
  rw [wallOccurrence_eq_some hday hshown, hsolved, hweekday, any_weekdays_iff, not_not]
  constructor
  · rintro ⟨hallow, hlt, rfl, -⟩
    exact ⟨hallow, hlt, rfl⟩
  rintro ⟨hallow, hlt, rfl⟩
  use hallow, hlt, rfl
  simp only [clockAt, hdayOf, hnoon, true_and]
  omega

/-! ### The days that are tried -/

/-- What is found first is found. -/
theorem findSome?_range {α : Type*} {f : ℕ → Option α} {a : α} {k n : ℕ} (hk : f k = some a)
    (hpre : ∀ j < k, f j = none) (hlt : k < n) :
  (List.range n).findSome? f = some a
  := by
  induction n with
  | zero => cases hlt
  | succ n ih =>
  rw [List.range_succ, List.findSome?_append]
  rcases Nat.lt_succ_iff_lt_or_eq.mp hlt with hlt | rfl
  · rw [ih hlt]
    rfl
  have hnone : (List.range k).findSome? f = none := by
    apply List.findSome?_eq_none_iff.mpr
    intro j hj
    apply hpre j (List.mem_range.mp hj)
  rw [hnone, List.findSome?_cons, hk]
  rfl

theorem next_eq (w : WallSchedule) (offset : ℤ → ℤ) (afterMs : ℤ) (timezone : Option String) :
  w.next offset afterMs timezone =
    nextWallOccurrence (zone offset) w.time w.weekdays afterMs (timezone.getD "UTC")
  := by
  unfold next schedule
  cases w.weekdays with
  | none | some weekdays => rfl

/-- Within a week there is a day asked for. -/
theorem exists_allows (w : WallSchedule) (n : ℤ) :
  ∃ m, n ≤ m ∧ m ≤ n + 6 ∧ w.Allows (weekdayOf m)
  := by
  have hnonempty := w.nonempty
  unfold Allows
  cases hweekdays : w.weekdays with
  | none =>
    use n, le_rfl, by omega
    intro weekdays h
    cases h
  | some weekdays =>
  cases weekdays with
  | nil => exact absurd hweekdays hnonempty
  | cons d weekdays =>
  have hd := d.isLt
  use n + (d.val - (n + 4)) % 7, by omega, by omega
  intro weekdays' h
  cases h
  use d, List.mem_cons_self
  rw [weekdayOf]
  omega

/-- The time of the schedule on a day is past a time of an earlier day. -/
theorem lt_slot (h : localDay off.function afterMs < n) :
  afterMs < w.slot off n
  := by
  have hhour := w.time.hour_lt
  have hminute := w.time.minute_lt
  rw [localDay, localTime, FixedOffset.function] at h
  rw [slot]
  omega

/-- The time of the schedule on a day is past a time only of the day itself or an earlier one. -/
theorem le_of_lt_slot (h : afterMs < w.slot off n) :
  localDay off.function afterMs ≤ n
  := by
  have hhour := w.time.hour_lt
  have hminute := w.time.minute_lt
  rw [slot] at h
  rw [localDay, localTime, FixedOffset.function]
  omega

theorem slot_le_slot_iff {m : ℤ} :
  w.slot off m ≤ w.slot off n ↔ m ≤ n
  := by
  unfold slot
  omega

theorem dueToday_iff :
  w.DueToday off.function afterMs ↔ w.Allows (weekdayOf (localDay off.function afterMs)) ∧
      afterMs < w.slot off (localDay off.function afterMs)
  := by
  have htime : localTime off.function afterMs % 86400000 <
      w.time.hour * 3600000 + w.time.minute * 60000 ↔
      afterMs < w.slot off (localDay off.function afterMs) := by
    rw [slot, localDay, localTime, FixedOffset.function]
    omega
  rw [DueToday, htime]
  rfl

/-- The next run is that of the first day asked for. -/
theorem isNext_iff :
  w.IsNext off.function afterMs at_ ↔
    ∃ n, at_ = w.slot off n ∧ w.Allows (weekdayOf n) ∧ afterMs < w.slot off n ∧
      ∀ m, w.Allows (weekdayOf m) → afterMs < w.slot off m → n ≤ m
  := by
  have hset : {t | afterMs < t ∧ 60000 ∣ t ∧ w.Shows off.function t} =
      {t | ∃ n, t = w.slot off n ∧ w.Allows (weekdayOf n) ∧ afterMs < w.slot off n} := by
    ext t
    rw [Set.mem_ofPred_eq, Set.mem_ofPred_eq, dvd_and_shows_iff]
    constructor
    · rintro ⟨hlt, n, rfl, hallow⟩
      exact ⟨n, rfl, hallow, hlt⟩
    · rintro ⟨n, rfl, hallow, hlt⟩
      exact ⟨hlt, n, rfl, hallow⟩
  rw [IsNext, hset]
  constructor
  · rintro ⟨⟨n, rfl, hallow, hlt⟩, hleast⟩
    use n, rfl, hallow, hlt
    intro m hallow' hlt'
    exact slot_le_slot_iff.mp (hleast ⟨m, rfl, hallow', hlt'⟩)
  rintro ⟨n, rfl, hallow, hlt, hleast⟩
  use ⟨n, rfl, hallow, hlt⟩
  rintro t ⟨m, rfl, hallow', hlt'⟩
  exact slot_le_slot_iff.mpr (hleast m hallow' hlt')

theorem noonShift_bounds (off : FixedOffset) :
  0 ≤ noonShift off ∧ noonShift off ≤ 1
  := by
  have hmin := off.min
  have hmax := off.max
  rw [noonShift]
  omega

/-- From the first century on the first day asked for is found of those from the local day of noon
in UTC on. -/
theorem next_zone (h : 100 ≤ localYear off.function afterMs) (timezone : Option String) :
  ∃ n, w.next off.function afterMs timezone = some (w.slot off n) ∧
    localDay off.function afterMs + noonShift off ≤ n ∧ w.Allows (weekdayOf n) ∧
    afterMs < w.slot off n ∧
    ∀ m, localDay off.function afterMs + noonShift off ≤ m → w.Allows (weekdayOf m) →
      afterMs < w.slot off m → n ≤ m
  := by
  classical
  obtain ⟨hshift, hshift'⟩ := noonShift_bounds off
  obtain ⟨s, hs⟩ : ∃ s, s = localDay off.function afterMs + noonShift off := ⟨_, rfl⟩
  obtain ⟨m, hlow, hhigh, hallow⟩ := w.exists_allows (localDay off.function afterMs + 1)
  have hlt : afterMs < w.slot off m := lt_slot (by omega)
  have hadd : ∀ k : ℕ, localDay off.function afterMs + k + noonShift off = s + k := by
    intro k
    omega
  have hexists : ∃ k : ℕ, w.Allows (weekdayOf (s + k)) ∧ afterMs < w.slot off (s + k) := by
    have hm : s + ((m - s).toNat : ℤ) = m := by omega
    use (m - s).toNat
    rw [hm]
    exact ⟨hallow, hlt⟩
  have hfound := Nat.find_spec hexists
  have hfirst := fun j => Nat.find_min hexists (m := j)
  obtain ⟨k, hk⟩ : ∃ k, k = Nat.find hexists := ⟨_, rfl⟩
  rw [← hk] at hfound
  have hle : k ≤ (m - s).toNat := by
    rw [hk]
    apply Nat.find_min'
    have hm : s + ((m - s).toNat : ℤ) = m := by omega
    rw [hm]
    exact ⟨hallow, hlt⟩
  use s + k
  constructor
  · rw [next_eq, nextWallOccurrence]
    apply findSome?_range
    · apply (wallOccurrence_zone h _ k).mpr
      rw [hadd]
      exact ⟨hfound.1, hfound.2, rfl⟩
    · intro j hj
      apply Option.eq_none_iff_forall_ne_some.mpr
      intro at_ hat
      obtain ⟨hallow', hlt', rfl⟩ := (wallOccurrence_zone h _ j).mp hat
      rw [hadd] at hallow' hlt'
      rw [hk] at hj
      exact hfirst j hj ⟨hallow', hlt'⟩
    · omega
  rw [← hs]
  use by omega, hfound.1, hfound.2
  intro m' hle' hallow' hlt'
  by_contra hpre
  have hm' : s + ((m' - s).toNat : ℤ) = m' := by omega
  apply hfirst (m' - s).toNat
  · rw [← hk]
    omega
  · rw [hm']
    exact ⟨hallow', hlt'⟩

/-- From the first century on the next run is computed, unless the offset is 12 hours or more and
the time of the schedule is still to come on the same day. -/
theorem right_iff_of_year (h : 100 ≤ localYear off.function afterMs) (timezone : Option String) :
  w.Right off.function afterMs timezone ↔ off.minutes < 720 ∨ ¬ w.DueToday off.function afterMs
  := by
  have hmin := off.min
  have hmax := off.max
  obtain ⟨n, hnext, hle, hallow, hlt, hfirst⟩ := next_zone (w := w) h timezone
  constructor
  · rintro ⟨at_, hat, hisNext⟩
    obtain rfl := Option.some.inj (hnext.symm.trans hat)
    obtain ⟨m, hm, -, -, hleast⟩ := isNext_iff.mp hisNext
    have hmn : m = n := le_antisymm (slot_le_slot_iff.mp hm.ge) (slot_le_slot_iff.mp hm.le)
    by_contra hnot
    rw [not_or, not_not, dueToday_iff] at hnot
    obtain ⟨hlate, hallow', hlt'⟩ := hnot
    have htoday := hleast _ hallow' hlt'
    have hshift : noonShift off = 1 := by
      rw [noonShift]
      omega
    omega
  intro hcond
  use w.slot off n, hnext
  apply isNext_iff.mpr
  use n, rfl, hallow, hlt
  intro m hallow' hlt'
  have hm := le_of_lt_slot hlt'
  rcases hm.lt_or_eq with hm | rfl
  · apply hfirst m _ hallow' hlt'
    have hshift := noonShift_bounds off
    omega
  rcases hcond with hearly | hdue
  · apply hfirst _ _ hallow' hlt'
    have hshift : noonShift off = 0 := by
      rw [noonShift]
      omega
    omega
  · exact absurd (dueToday_iff.mpr ⟨hallow', hlt'⟩) hdue

/-! ### The first century -/

theorem eraYear_pos (year : ℤ) :
  1 ≤ eraYear year
  := by
  rw [eraYear]
  split_ifs
  · omega
  · omega

/-- What is computed is on the date that the clock shows at noon in UTC on one of the days tried. -/
theorem exists_noon {offset : ℤ → ℤ} {timezone : Option String}
    (h : w.next offset afterMs timezone = some at_) :
  ∃ (k : ℕ) (noon : ℤ), noon = dateUTC (clockAt (localTime offset afterMs)).year
      ((clockAt (localTime offset afterMs)).month - 1)
      ((clockAt (localTime offset afterMs)).day + k) 12 0 ∧
    afterMs < at_ ∧ w.Allows (clockAt (localTime offset noon)).weekday ∧
    (clockAt (localTime offset at_)).year = (clockAt (localTime offset noon)).year ∧
    (clockAt (localTime offset at_)).month = (clockAt (localTime offset noon)).month ∧
    (clockAt (localTime offset at_)).day = (clockAt (localTime offset noon)).day ∧
    (clockAt (localTime offset at_)).hour = w.time.hour ∧
    (clockAt (localTime offset at_)).minute = w.time.minute
  := by
  rw [next_eq, nextWallOccurrence] at h
  obtain ⟨k, -, hk⟩ := List.exists_of_findSome?_eq_some h
  obtain ⟨hany, hlt, hat, hshown⟩ := (wallOccurrence_eq_some rfl rfl).mp hk
  use k, dateUTC (clockAt (localTime offset afterMs)).year
    ((clockAt (localTime offset afterMs)).month - 1)
    ((clockAt (localTime offset afterMs)).day + k) 12 0, rfl, hlt
  rw [any_weekdays_iff, not_not] at hany
  use hany
  rw [← hat] at hshown
  apply hshown

/-- Noon in UTC is not before the year that is read for it. -/
theorem le_noon (localMs : ℤ) (k : ℕ) {year : ℤ} (h : year ≤ 100 ∨
    (clockAt localMs).year ≤ 99 ∧ year ≤ 1901) :
  dayFromYear year * 86400000 + 43200000 ≤
    dateUTC (clockAt localMs).year ((clockAt localMs).month - 1) ((clockAt localMs).day + k) 12 0
  := by
  obtain ⟨hmonth, hday⟩ := civilDate_bounds (localMs / 86400000)
  have hyear : 1 ≤ (clockAt localMs).year := eraYear_pos _
  have hmonthEq : (clockAt localMs).month = (civilDate (localMs / 86400000)).month := rfl
  have hdayEq : (clockAt localMs).day = (civilDate (localMs / 86400000)).day := rfl
  have hle := le_dateUTC (clockAt localMs).year ((clockAt localMs).month - 1)
    ((clockAt localMs).day + k) 12 0 (by omega) (by omega) (by omega)
  have hmono : dayFromYear year ≤ dayFromYear
      (if 0 ≤ (clockAt localMs).year ∧ (clockAt localMs).year ≤ 99 then
        1900 + (clockAt localMs).year else (clockAt localMs).year) := by
    apply dayFromYear_mono
    split_ifs
    · omega
    · omega
  omega

/-- In the first century what is computed is in the twentieth. -/
theorem not_right_of_year (hpos : 1 ≤ localYear off.function afterMs)
    (hlt : localYear off.function afterMs < 100) (timezone : Option String) :
  ¬ w.Right off.function afterMs timezone
  := by
  rintro ⟨at_, hat, hisNext⟩
  have hmin := off.min
  obtain ⟨k, noon, hnoon, hafter, -, hyear, -⟩ := exists_noon hat
  obtain ⟨n, rfl, -, -, hleast⟩ := isNext_iff.mp hisNext
  -- a day asked for follows within a week
  obtain ⟨m, hlow, hhigh, hallow⟩ := w.exists_allows (localDay off.function afterMs + 1)
  have hn := hleast m hallow (lt_slot (by omega))
  have hstart := le_of_lt_slot hafter
  have hday : localDay off.function (w.slot off n) = n := by
    have hhour := w.time.hour_lt
    have hminute := w.time.minute_lt
    rw [localDay, localTime_slot]
    omega
  have hprinted : (clockAt (localTime off.function afterMs)).year ≤ 99 := by
    have hera : (clockAt (localTime off.function afterMs)).year = localYear off.function afterMs :=
      eraYear_of_pos hpos
    omega
  have hnoonLow := le_noon (localTime off.function afterMs) k (Or.inr ⟨hprinted, le_refl 1901⟩)
  rw [← hnoon] at hnoonLow
  have hnoonYear : 1901 ≤ localYear off.function noon := by
    apply dayFromYear_le_iff.mp
    rw [localDay, localTime, FixedOffset.function]
    omega
  have hslotYear : 1 ≤ localYear off.function (w.slot off n) := by
    rw [localYear, hday]
    exact year_le_of_le hpos hstart
  have hsame : localYear off.function (w.slot off n) = localYear off.function noon := by
    rw [← eraYear_of_pos hslotYear, ← eraYear_of_pos (by omega : 1 ≤ localYear off.function noon)]
    apply hyear
  have hlate : dayFromYear 1901 ≤ n := by
    rw [← hday]
    apply dayFromYear_le_iff.mpr
    rw [← localYear, hsame]
    apply hnoonYear
  have hearly : ¬ dayFromYear 100 ≤ localDay off.function afterMs := by
    rw [dayFromYear_le_iff, not_le]
    apply hlt
  have hcenturies : dayFromYear 100 + 7 < dayFromYear 1901 := by decide
  omega

/-! ### Any offset -/

/-- Dates from the year 99 on that are printed alike, one of them not long before the common era,
are the same. -/
theorem civilDate_eq_of_clockAt {s t : ℤ} (hs : 99 ≤ (civilDate (s / 86400000)).year)
    (ht : 0 ≤ (civilDate (t / 86400000)).year)
    (hyear : (clockAt t).year = (clockAt s).year) (hmonth : (clockAt t).month = (clockAt s).month)
    (hday : (clockAt t).day = (clockAt s).day) :
  t / 86400000 = s / 86400000
  := by
  apply civilDate_injective
  have hsYear : (clockAt s).year = (civilDate (s / 86400000)).year := eraYear_of_pos (by omega)
  have htYear : (clockAt t).year = eraYear (civilDate (t / 86400000)).year := rfl
  rw [htYear, hsYear, eraYear] at hyear
  have hsame : (civilDate (t / 86400000)).year = (civilDate (s / 86400000)).year := by
    split_ifs at hyear with hneg
    · omega
    · apply hyear
  exact Ecma.CivilDate.ext hsame hmonth hday

/-- What is computed lies past the time it is computed from, and the clock shows the time of the
schedule there. -/
theorem matches_of_next {offset : ℤ → ℤ} {timezone : Option String}
    (h : w.next offset afterMs timezone = some at_) :
  w.Matches offset afterMs at_
  := by
  obtain ⟨k, noon, hnoon, hafter, hallow, hyear, hmonth, hday, hhour, hminute⟩ := exists_noon h
  use hafter, hhour, hminute
  intro hpos hbound
  have hnoonLow := le_noon (localTime offset afterMs) k (Or.inl (le_refl 100))
  rw [← hnoon] at hnoonLow
  have hnoonBound := abs_lt.mp (hbound noon)
  have hatBound := abs_lt.mp (hbound at_)
  have hafterBound := abs_lt.mp (hbound afterMs)
  have hyears : dayFromYear 99 + 1 ≤ dayFromYear 100 ∧
      dayFromYear 0 + 2 ≤ dayFromYear 1 := by decide
  have hnoonYear : 99 ≤ (civilDate (localTime offset noon / 86400000)).year := by
    apply dayFromYear_le_iff.mp
    rw [localTime]
    omega
  have hstart : dayFromYear 1 ≤ localDay offset afterMs := dayFromYear_le_iff.mpr hpos
  rw [localDay, localTime] at hstart
  have hatYear : 0 ≤ (civilDate (localTime offset at_ / 86400000)).year := by
    apply dayFromYear_le_iff.mp
    rw [localTime]
    omega
  have hsame := civilDate_eq_of_clockAt hnoonYear hatYear hyear hmonth hday
  have hweekday : (clockAt (localTime offset at_)).weekday =
      (clockAt (localTime offset noon)).weekday := by
    simp only [clockAt, hsame]
  rw [hweekday]
  apply hallow

/-- From the first century on the next run in a zone of a constant offset is computed, if the offset
is less than 12 hours or the time of the schedule is not still to come on the same day; in the
common era it is computed only then. With any offset, what is computed lies past the time it is
computed from, and the clock shows the time of the schedule there. -/
theorem nextRun_iff (w : WallSchedule) (off : FixedOffset) (offset : ℤ → ℤ) (afterMs : ℤ)
    (timezone : Option String) :
  (100 ≤ localYear off.function afterMs ∧ (off.minutes < 720 ∨ ¬ w.DueToday off.function afterMs) →
    w.Right off.function afterMs timezone) ∧
  (1 ≤ localYear off.function afterMs → w.Right off.function afterMs timezone →
    100 ≤ localYear off.function afterMs ∧
      (off.minutes < 720 ∨ ¬ w.DueToday off.function afterMs)) ∧
  ∀ at_, w.next offset afterMs timezone = some at_ → w.Matches offset afterMs at_
  := by
  constructor
  · rintro ⟨hyear, hcond⟩
    exact (right_iff_of_year hyear timezone).mpr hcond
  constructor
  · intro hpos hright
    have hyear : 100 ≤ localYear off.function afterMs := by
      by_contra hlt
      exact not_right_of_year hpos (not_le.mp hlt) timezone hright
    exact ⟨hyear, (right_iff_of_year hyear timezone).mp hright⟩
  · intro at_ h
    exact matches_of_next h

/-- Every day at nine. -/
def dailyAtNine : WallSchedule where
  time := ⟨9, 0, by decide, by decide⟩
  weekdays := none
  nonempty := by simp

/-- At noon in UTC the next run is computed. -/
theorem nextRun_iff_utc :
  dailyAtNine.Right (FixedOffset.mk 0 (by decide) (by decide)).function
    (dateUTC 2026 0 14 12 0) none
  := by
  apply (nextRun_iff dailyAtNine ⟨0, by decide, by decide⟩ (fun _ => 0) _ none).1
  constructor
  · decide +kernel
  · left
    decide

/-- In a zone 13 hours before UTC a run an hour from now is passed over. -/
theorem not_nextRun :
  ¬ ∀ (w : WallSchedule) (off : FixedOffset) (afterMs : ℤ) (timezone : Option String),
    w.Right off.function afterMs timezone
  := by
  intro h
  obtain ⟨at_, hat, hisNext⟩ := h dailyAtNine ⟨780, by decide, by decide⟩
    (dateUTC 2026 0 14 19 0) none
  have hnext : dailyAtNine.next (FixedOffset.mk 780 (by decide) (by decide)).function
      (dateUTC 2026 0 14 19 0) none = some (dateUTC 2026 0 15 20 0) := by
    decide +kernel
  obtain rfl := Option.some.inj (hnext.symm.trans hat)
  have hshows : dailyAtNine.Shows (FixedOffset.mk 780 (by decide) (by decide)).function
      (dateUTC 2026 0 14 20 0) := by
    constructor
    · decide +kernel
    · decide +kernel
    · intro weekdays hweekdays
      cases hweekdays
  have hle := hisNext.2 ⟨by decide +kernel, by decide +kernel, hshows⟩
  revert hle
  decide +kernel

end WallSchedule

end Scheduler
