import TimeSwitch.Calendar.CivilTime

/-!
Civil times as seconds since 1970. `toUnix` adds up the years and months before a date and
`ofUnix` lays the days over them again; both read the same two lists of spans.
-/

namespace TimeSwitch.CivilTime

/-- The days from 1970 to the base year. -/
def daysBeforeBase : Nat := 10957

def secondsPerDay : Nat := 86400

/-- The lengths of the first `n` years from the base year. -/
def yearLengths (n : Nat) : List Nat :=
  (List.range n).map fun offset => Calendar.daysInYear (baseYear + offset)

/-- The days from the first day of the base year to the date; day zero counts as day one. -/
def dayNumber (t : CivilTime) : Nat :=
  Calendar.totalDays (yearLengths t.year) +
    Calendar.daysBefore (Calendar.monthLengths t.inLeapYear) t.month + (t.day - 1)

def secondOfDay (t : CivilTime) : Nat :=
  t.hour * 3600 + t.minute * 60 + t.second

/-- The seconds since 1970. The weekday plays no part. -/
def toUnix (t : CivilTime) : Nat :=
  (daysBeforeBase + t.dayNumber) * secondsPerDay + t.secondOfDay

/-- The calendar weekday of a day number: day zero was a Saturday. -/
def weekdayOf (dayNumber : Nat) : Weekday :=
  Weekday.afterSunday (dayNumber + 6)

/-- The date of a day number, at midnight, unless its year is out of range. -/
def ofDayNumber? (day : Nat) : Option CivilTime := do
  let (year, dayOfYear) ← Calendar.locate (yearLengths (lastYear + 1)) day
  let leap := Calendar.isLeap (baseYear + year)
  let (month, dayOfMonth) ← Calendar.locate (Calendar.monthLengths leap) dayOfYear
  return { base with year, month, day := dayOfMonth + 1, weekday := weekdayOf day }

/-- The civil time of a second since 1970, with the weekday of the calendar. -/
def ofUnix (seconds : Nat) : Except CalendarDefect CivilTime :=
  let days := seconds / secondsPerDay
  let ofDay := seconds % secondsPerDay
  if days < daysBeforeBase then .error .year
  else match ofDayNumber? (days - daysBeforeBase) with
    | none => .error .year
    | some date => .ok { date with
        hour := ofDay / 3600
        minute := ofDay / 60 % 60
        second := ofDay % 60 }

/-- The number of the minute that holds the time, counted from 1970. -/
def minuteNumber (t : CivilTime) : Nat :=
  t.toUnix / 60

/-- The weekday does not move a time. -/
@[simp] theorem toUnix_weekday (t : CivilTime) (day : Weekday) :
    { t with weekday := day }.toUnix = t.toUnix := rfl

end TimeSwitch.CivilTime
