import TimeSwitch.Proofs.Calendar.Existing

/-!
Dates, times of day and the minutes they fall in. A date that exists is found again from the days
before it, so among times that exist the number of a minute tells the date, the hour and the
minute.
-/

namespace TimeSwitch

/-- A minute as a calendar with a clock shows it, whatever the weekday. -/
structure CalendarMinute where
  year : Nat
  month : Nat
  day : Nat
  hour : Nat
  minute : Nat
  deriving DecidableEq, Repr

namespace Calendar

variable {spans : List Nat} {n rest : Nat}

theorem daysBefore_add_lt (hn : n < spans.length) (hrest : rest < spans[n]) :
    daysBefore spans n + rest < totalDays spans := by
  have hfound : locate spans (daysBefore spans n + rest) = some (n, rest) :=
    locate_eq_some_iff.2 ⟨hn, hrest, rfl⟩
  have hsome : locate spans (daysBefore spans n + rest) ≠ none := by
    rw [hfound]
    exact nofun
  rw [ne_eq, locate_eq_none_iff] at hsome
  omega

end Calendar

namespace CivilTime

open Calendar

variable {t u : CivilTime}

@[simp] theorem length_yearLengths (n : Nat) : (yearLengths n).length = n := by
  simp [yearLengths]

theorem getElem_yearLengths {n year : Nat} (h : year < (yearLengths n).length) :
    (yearLengths n)[year] = daysInYear (baseYear + year) := by
  simp [yearLengths]

theorem daysBefore_yearLengths {n year : Nat} (h : year ≤ n) :
    daysBefore (yearLengths n) year = totalDays (yearLengths year) := by
  rw [daysBefore, yearLengths, ← List.map_take, List.take_range, Nat.min_eq_left h, yearLengths]

/-! ### Dates from days -/

theorem locate_month (h : t.Exists) :
    locate (monthLengths t.inLeapYear)
      (daysBefore (monthLengths t.inLeapYear) t.month + (t.day - 1)) =
        some (t.month, t.day - 1) := by
  have hmonth : t.month < (monthLengths t.inLeapYear).length := h.month
  have hpos := h.day_pos
  have hle := h.day_le
  refine locate_eq_some_iff.2 ⟨hmonth, ?_, rfl⟩
  rw [getElem_monthLengths hmonth]
  omega

theorem locate_year (h : t.Exists) :
    locate (yearLengths (lastYear + 1)) t.dayNumber =
      some (t.year, daysBefore (monthLengths t.inLeapYear) t.month + (t.day - 1)) := by
  have hyear : t.year < (yearLengths (lastYear + 1)).length := by
    rw [length_yearLengths]
    exact Nat.lt_succ_of_le h.year
  obtain ⟨hmonth, hday, -⟩ := locate_eq_some_iff.1 (locate_month h)
  refine locate_eq_some_iff.2 ⟨hyear, ?_, ?_⟩
  · calc daysBefore (monthLengths t.inLeapYear) t.month + (t.day - 1)
        < totalDays (monthLengths t.inLeapYear) := daysBefore_add_lt hmonth hday
      _ = daysInYear t.fullYear := totalDays_monthLengths t.fullYear
      _ = (yearLengths (lastYear + 1))[t.year] := (getElem_yearLengths hyear).symm
  · rw [daysBefore_yearLengths (Nat.le_succ_of_le h.year), dayNumber, Nat.add_assoc]

/-- The days before a date that exists lead back to that date. -/
theorem ofDayNumber?_dayNumber (h : t.Exists) :
    ofDayNumber? t.dayNumber = some { base with
      year := t.year, month := t.month, day := t.day, weekday := weekdayOf t.dayNumber } := by
  have hmonth := locate_month h
  simp only [inLeapYear, fullYear] at hmonth
  simp only [ofDayNumber?, locate_year h, Option.bind_eq_bind, Option.bind_some, inLeapYear,
    fullYear, hmonth, Option.pure_def, Nat.sub_add_cancel h.day_pos]

theorem date_eq_of_dayNumber_eq (ht : t.Exists) (hu : u.Exists)
    (h : t.dayNumber = u.dayNumber) : t.year = u.year ∧ t.month = u.month ∧ t.day = u.day := by
  have hdate := ofDayNumber?_dayNumber hu
  rw [← h, ofDayNumber?_dayNumber ht, Option.some.injEq] at hdate
  injection hdate with hyear hmonth hday
  exact ⟨hyear, hmonth, hday⟩

/-! ### Calendar minutes -/

theorem minuteNumber_eq (h : t.Exists) :
    t.minuteNumber = (daysBeforeBase + t.dayNumber) * 1440 + t.hour * 60 + t.minute := by
  have hsecond := h.second
  simp only [minuteNumber, toUnix, secondOfDay, secondsPerDay]
  omega

theorem minuteNumber_le_of_toUnix_le (h : t.toUnix ≤ u.toUnix) :
    t.minuteNumber ≤ u.minuteNumber :=
  Nat.div_le_div_right h

def calendarMinute (t : CivilTime) : CalendarMinute :=
  ⟨t.year, t.month, t.day, t.hour, t.minute⟩

/-- Times that exist are in the same minute if their minutes have the same number. -/
theorem calendarMinute_eq_iff (ht : t.Exists) (hu : u.Exists) :
    t.calendarMinute = u.calendarMinute ↔ t.minuteNumber = u.minuteNumber := by
  rw [minuteNumber_eq ht, minuteNumber_eq hu]
  simp only [calendarMinute, CalendarMinute.mk.injEq]
  constructor
  · rintro ⟨hyear, hmonth, hday, hhour, hminute⟩
    simp only [dayNumber, inLeapYear, fullYear, hyear, hmonth, hday, hhour, hminute]
  · intro h
    have hthour := ht.hour
    have htminute := ht.minute
    have huhour := hu.hour
    have huminute := hu.minute
    obtain ⟨hyear, hmonth, hday⟩ := date_eq_of_dayNumber_eq ht hu (by omega)
    exact ⟨hyear, hmonth, hday, by omega, by omega⟩

end CivilTime

end TimeSwitch
