import TimeSwitch.Calendar.Month
import TimeSwitch.Calendar.Weekday
import TimeSwitch.Text.Decimal

/-!
A date with a time of day, as a clock face shows it. The year is an offset from 2000 and the
month is counted from zero. A value may hold a date that does not exist; `defect?` names the
first field that is wrong, and the weekday is free, since a user may set any.
-/

namespace TimeSwitch

/-- The field that keeps a date and time from existing. -/
inductive CalendarDefect
  | year | month | day | hour | minute | second
  deriving DecidableEq, Repr

structure CivilTime where
  year : Nat
  month : Nat
  day : Nat
  weekday : Weekday
  hour : Nat
  minute : Nat
  second : Nat
  deriving DecidableEq, Repr

namespace CivilTime

/-- The year that offset zero stands for. -/
def baseYear : Nat := 2000

/-- The largest year offset, so that years have two digits. -/
def lastYear : Nat := 99

/-- Midnight of the first day, which was a Saturday. -/
def base : CivilTime := ⟨0, 0, 1, .saturday, 0, 0, 0⟩

instance : Inhabited CivilTime := ⟨base⟩

def fullYear (t : CivilTime) : Nat :=
  baseYear + t.year

def inLeapYear (t : CivilTime) : Bool :=
  Calendar.isLeap t.fullYear

/-- The first field out of range, from the year down to the second. -/
def defect? (t : CivilTime) : Option CalendarDefect :=
  if lastYear < t.year then some .year
  else if 11 < t.month then some .month
  else if t.day = 0 ∨ Calendar.daysInMonth t.inLeapYear t.month < t.day then some .day
  else if 23 < t.hour then some .hour
  else if 59 < t.minute then some .minute
  else if 59 < t.second then some .second
  else none

/-- The date exists in its year and the time of day is on the clock. -/
structure Exists (t : CivilTime) : Prop where
  year : t.year ≤ lastYear
  month : t.month < 12
  day_pos : 1 ≤ t.day
  day_le : t.day ≤ Calendar.daysInMonth t.inLeapYear t.month
  hour : t.hour < 24
  minute : t.minute < 60
  second : t.second < 60

theorem defect?_eq_none_iff {t : CivilTime} : t.defect? = none ↔ t.Exists := by
  constructor
  · intro h
    unfold defect? at h
    split at h <;> try contradiction
    split at h <;> try contradiction
    split at h <;> try contradiction
    split at h <;> try contradiction
    split at h <;> try contradiction
    split at h <;> try contradiction
    constructor <;> omega
  · intro h
    have := h.year; have := h.month; have := h.day_pos; have := h.day_le
    have := h.hour; have := h.minute; have := h.second
    unfold defect?
    repeat rw [if_neg (by omega)]

/-- Refuses a time that does not exist, with its first defect. -/
def checked (t : CivilTime) : Except CalendarDefect CivilTime :=
  match t.defect? with
  | some defect => .error defect
  | none => .ok t

/-- For instance `TUE 13-05-21 17:42:23`. -/
def render (t : CivilTime) : List Char :=
  t.weekday.abbreviation ++ ' ' ::
    (Decimal.padded 2 t.year ++ '-' :: Decimal.padded 2 (t.month + 1) ++ '-' ::
      Decimal.padded 2 t.day ++ ' ' :: Decimal.padded 2 t.hour ++ ':' ::
      Decimal.padded 2 t.minute ++ ':' :: Decimal.padded 2 t.second)

end CivilTime

end TimeSwitch
