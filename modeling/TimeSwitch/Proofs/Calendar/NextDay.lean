import Mathlib.Tactic.SplitIfs
import TimeSwitch.Proofs.Calendar.Minutes

/-!
The day after. The calendar moves on by a day within its month, into the next month or into the
next year; the days from the base date go up by one and the weekday by one, round the week.
-/

namespace TimeSwitch

def Weekday.next (day : Weekday) : Weekday :=
  .afterSunday (day.index + 1)

theorem Weekday.next_afterSunday (n : Nat) : (afterSunday n).next = afterSunday (n + 1) := by
  rw [next, index_afterSunday]
  unfold afterSunday
  rw [Nat.mod_add_mod]

namespace Calendar

theorem totalDays_append (a b : List Nat) : totalDays (a ++ b) = totalDays a + totalDays b := by
  induction a with
  | nil => simp
  | cons span a ih => rw [List.cons_append, totalDays_cons, totalDays_cons, ih, Nat.add_assoc]

theorem daysBefore_succ {spans : List Nat} {n : Nat} (h : n < spans.length) :
    daysBefore spans (n + 1) = daysBefore spans n + spans[n] := by
  rw [daysBefore, daysBefore, ← List.take_append_getElem h, totalDays_append, totalDays_cons,
    totalDays_nil, Nat.add_zero]

theorem daysBefore_length (spans : List Nat) : daysBefore spans spans.length = totalDays spans := by
  rw [daysBefore, List.take_length]

end Calendar

namespace CivilTime

open Calendar

variable {t : CivilTime}

/-- The same time of day on the day after. -/
def nextDay (t : CivilTime) : CivilTime :=
  let weekday := t.weekday.next
  if t.day < daysInMonth t.inLeapYear t.month then { t with day := t.day + 1, weekday }
  else if t.month < 11 then { t with month := t.month + 1, day := 1, weekday }
  else { t with year := t.year + 1, month := 0, day := 1, weekday }

theorem totalDays_yearLengths_succ (n : Nat) :
    totalDays (yearLengths (n + 1)) = totalDays (yearLengths n) + daysInYear (baseYear + n) := by
  rw [yearLengths, List.range_succ, List.map_append, totalDays_append, ← yearLengths]
  simp

theorem daysBefore_months_succ {leap : Bool} {month : Nat} (h : month < 12) :
    daysBefore (monthLengths leap) (month + 1) =
      daysBefore (monthLengths leap) month + daysInMonth leap month := by
  rw [daysBefore_succ (show month < (monthLengths leap).length from h), getElem_monthLengths]

theorem dayNumber_nextDay (h : t.Exists) : t.nextDay.dayNumber = t.dayNumber + 1 := by
  have hpos := h.day_pos
  have hlast := h.day_le
  have hbefore := @daysBefore_months_succ t.inLeapYear t.month h.month
  unfold nextDay
  split_ifs with hin hmonth
  · simp only [dayNumber, inLeapYear, fullYear]
    omega
  · -- the last day of a month before December
    simp only [dayNumber, inLeapYear, fullYear] at hin hbefore hlast ⊢
    omega
  · have hdecember : t.month = 11 := by
      have := h.month
      omega
    have hmonths : daysBefore (monthLengths t.inLeapYear) (11 + 1) = daysInYear t.fullYear :=
      (daysBefore_length _).trans (totalDays_monthLengths t.fullYear)
    have hnext := totalDays_yearLengths_succ t.year
    rw [hdecember, hmonths] at hbefore
    simp only [dayNumber, inLeapYear, fullYear, hdecember, daysBefore_zero] at hin hbefore hlast ⊢
    omega

/-- The calendar weekday of the date, whatever weekday is recorded. -/
def calendarWeekday (t : CivilTime) : Weekday := weekdayOf t.dayNumber

theorem calendarWeekday_base : base.calendarWeekday = .saturday := by decide

theorem calendarWeekday_nextDay (h : t.Exists) :
    t.nextDay.calendarWeekday = t.calendarWeekday.next := by
  rw [calendarWeekday, calendarWeekday, weekdayOf, weekdayOf, Weekday.next_afterSunday,
    dayNumber_nextDay h, Nat.add_right_comm]

end CivilTime

end TimeSwitch
