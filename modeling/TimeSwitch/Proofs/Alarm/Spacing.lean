import TimeSwitch.Alarm.Schedule
import TimeSwitch.Proofs.Calendar.Seconds

/-!
How far recurrences lie apart. Within a minute all times recur or none does. From a minute that
recurs to the next it takes an hour, a day, a week or at least the twenty-eight days of the
shortest month, as the period is.
-/

namespace TimeSwitch

namespace CivilTime

variable {t u : CivilTime} {s v : Nat}

/-! ### Days that look alike -/

theorem weekday_of_ofUnix (h : ofUnix s = .ok t) : t.weekday = t.calendarWeekday := by
  have hagain := ofUnix_toUnix (exists_of_ofUnix h)
  rw [toUnix_of_ofUnix h, h] at hagain
  exact congrArg CivilTime.weekday (Except.ok.inj hagain)

theorem mod_seven_eq_of_weekdayOf_eq {a b : Nat} (h : weekdayOf a = weekdayOf b) :
    a % 7 = b % 7 := by
  have hindex := congrArg Weekday.index h
  simp only [weekdayOf, Weekday.index_afterSunday] at hindex
  omega

/-- No month is shorter than four weeks. -/
theorem dayNumber_add_le_of_day_eq (ht : t.Exists) (hu : u.Exists) (hday : t.day = u.day)
    (hlt : t.dayNumber < u.dayNumber) : t.dayNumber + 28 ≤ u.dayNumber := by
  refine Nat.not_lt.1 fun hnear => ?_
  have htpos := ht.day_pos
  have hlong := @Calendar.le_daysInMonth t.inLeapYear t.month ht.month
  have hlong' := @Calendar.le_daysInMonth u.inLeapYear u.month hu.month
  -- otherwise the first of the later month would be a day of the earlier month, too
  let first : CivilTime := { u with day := 1 }
  let inside : CivilTime := { t with day := u.dayNumber - t.dayNumber + 1 }
  have hfirst : first.Exists := ⟨hu.year, hu.month, Nat.le_refl 1,
    Nat.le_trans (show 1 ≤ 28 by decide) hlong', hu.hour, hu.minute, hu.second⟩
  have hinside : inside.Exists := ⟨ht.year, ht.month, Nat.succ_pos _,
    Nat.le_trans (show u.dayNumber - t.dayNumber + 1 ≤ 28 by omega) hlong, ht.hour, ht.minute,
    ht.second⟩
  have hsame : inside.dayNumber = first.dayNumber := by
    simp only [inside, first, dayNumber, inLeapYear, fullYear] at *
    omega
  obtain ⟨-, -, hone⟩ := date_eq_of_dayNumber_eq hinside hfirst hsame
  simp only [inside, first] at hone
  omega

theorem minuteNumber_of_ofUnix (h : ofUnix s = .ok t) : t.minuteNumber = s / 60 := by
  rw [minuteNumber, toUnix_of_ofUnix h]

end CivilTime

namespace Period

open CivilTime

variable {period : Period} {target t u : CivilTime} {s v : Nat}

/-! ### Recurrences -/

theorem recurs_hour_iff : Period.hour.recurs target t = true ↔ target.minute = t.minute := by
  simp [recurs, fields, CalendarField.agrees]

theorem recurs_day_iff : Period.day.recurs target t = true ↔
    target.hour = t.hour ∧ target.minute = t.minute := by
  simp [recurs, fields, CalendarField.agrees]

theorem recurs_week_iff : Period.week.recurs target t = true ↔
    target.weekday = t.weekday ∧ target.hour = t.hour ∧ target.minute = t.minute := by
  simp [recurs, fields, CalendarField.agrees]

theorem recurs_month_iff : Period.month.recurs target t = true ↔
    target.day = t.day ∧ target.hour = t.hour ∧ target.minute = t.minute := by
  simp [recurs, fields, CalendarField.agrees]

theorem recurs_year_iff : Period.year.recurs target t = true ↔
    target.month = t.month ∧ Period.month.recurs target t = true := by
  simp [recurs, fields, CalendarField.agrees]

/-- What recurs does so for a whole minute. -/
theorem recurs_eq_of_same_minute (ht : ofUnix s = .ok t) (hu : ofUnix v = .ok u)
    (h : s / 60 = v / 60) : period.recurs target t = period.recurs target u := by
  have hminutes : t.minuteNumber = u.minuteNumber := by
    rw [minuteNumber_of_ofUnix ht, minuteNumber_of_ofUnix hu, h]
  have hminute := (calendarMinute_eq_iff (exists_of_ofUnix ht) (exists_of_ofUnix hu)).2 hminutes
  simp only [calendarMinute, CalendarMinute.mk.injEq] at hminute
  obtain ⟨hyear, hmonth, hday, hhour, hminute⟩ := hminute
  have hweekday : t.weekday = u.weekday := by
    rw [weekday_of_ofUnix ht, weekday_of_ofUnix hu]
    simp only [calendarWeekday, dayNumber, inLeapYear, fullYear, hyear, hmonth, hday]
  cases period <;>
    simp [recurs, fields, CalendarField.agrees, hmonth, hday, hweekday, hhour, hminute]

/-- The minutes from one recurrence to the next, at least. -/
def spacing : Period → Nat
  | hour => 60
  | day => 1440
  | week => 10080
  | month | year => 40320

theorem spacing_le_month (period : Period) : period.spacing ≤ 40320 := by
  cases period <;> decide

/-- From one minute that recurs to the next it takes no less than the spacing. -/
theorem spacing_le (ht : ofUnix s = .ok t) (hu : ofUnix v = .ok u)
    (hrecurs : period.recurs target t = true) (hrecurs' : period.recurs target u = true)
    (hlt : s / 60 < v / 60) : s / 60 + period.spacing ≤ v / 60 := by
  have htexists := exists_of_ofUnix ht
  have huexists := exists_of_ofUnix hu
  have hminute := minuteNumber_eq htexists
  have hminute' := minuteNumber_eq huexists
  rw [minuteNumber_of_ofUnix ht] at hminute
  rw [minuteNumber_of_ofUnix hu] at hminute'
  have hmonthly (hmonth : Period.month.recurs target t = true)
      (hmonth' : Period.month.recurs target u = true) : s / 60 + 40320 ≤ v / 60 := by
    rw [recurs_month_iff] at hmonth hmonth'
    have hdays := dayNumber_add_le_of_day_eq htexists huexists (hmonth.1.symm.trans hmonth'.1)
      (by omega)
    omega
  cases period with
  | hour =>
      rw [recurs_hour_iff] at hrecurs hrecurs'
      show s / 60 + 60 ≤ v / 60
      omega
  | day =>
      rw [recurs_day_iff] at hrecurs hrecurs'
      show s / 60 + 1440 ≤ v / 60
      omega
  | week =>
      rw [recurs_week_iff] at hrecurs hrecurs'
      have hdays := mod_seven_eq_of_weekdayOf_eq ((weekday_of_ofUnix ht).symm.trans
        ((hrecurs.1.symm.trans hrecurs'.1).trans (weekday_of_ofUnix hu)))
      show s / 60 + 10080 ≤ v / 60
      omega
  | month => exact hmonthly hrecurs hrecurs'
  | year => exact hmonthly (recurs_year_iff.1 hrecurs).2 (recurs_year_iff.1 hrecurs').2

/-- The spacing of the periods for which a schedule could ask for an activation as long. -/
def gap? : Period → Option Nat
  | hour => some 60
  | day => some 1440
  | week | month | year => none

theorem maxMinutes_lt_spacing (h : period.gap? = none) : Schedule.maxMinutes < period.spacing := by
  cases period with
  | hour | day => cases h
  | week | month | year => decide

theorem minutes_lt_spacing {minutes : Nat} (hgap : ∀ gap ∈ period.gap?, minutes < gap)
    (hmax : minutes ≤ Schedule.maxMinutes) : minutes < period.spacing := by
  cases period with
  | hour => exact hgap 60 rfl
  | day => exact hgap 1440 rfl
  | week | month | year => exact Nat.lt_of_le_of_lt hmax (maxMinutes_lt_spacing rfl)

end Period

end TimeSwitch
