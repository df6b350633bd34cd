import TimeSwitch.Alarm.Period

/-!
What an alarm is asked to do: which moment recurs, how many recurrences make one firing and how
long a firing lasts.
-/

namespace TimeSwitch

structure Schedule where
  period : Period
  target : CivilTime
  /-- The recurrences that make one firing. -/
  count : Nat
  /-- The minutes that a firing lasts. -/
  minutes : Nat
  deriving DecidableEq, Repr

namespace Schedule

/-- The duration of a schedule that names none. -/
def defaultMinutes : Nat := 60

def maxMinutes : Nat := 9999

def maxCount : Nat := 50

/-- A schedule within its limits: the count is at least one and no minutes means the default. -/
def clamped (period : Period) (target : CivilTime) (count minutes : Nat) : Schedule where
  period
  target
  count := max 1 (min count maxCount)
  minutes := if minutes = 0 then defaultMinutes else min minutes maxMinutes

/-- Every year at the first moment of the calendar. -/
def blank : Schedule := ⟨.year, .base, 1, defaultMinutes⟩

/-- For instance `TUE 13-05-21 17:42:23 r01 iY d00060`. -/
def render (s : Schedule) : List Char :=
  s.target.render ++ ' ' :: 'r' :: Decimal.padded 2 s.count ++ ' ' :: 'i' :: s.period.letter ::
    ' ' :: 'd' :: Decimal.padded 5 s.minutes

theorem count_clamped_bounds (p t c m) :
    1 ≤ (clamped p t c m).count ∧ (clamped p t c m).count ≤ maxCount := by
  simp only [clamped, maxCount]; omega

theorem minutes_clamped_bounds (p t c m) :
    1 ≤ (clamped p t c m).minutes ∧ (clamped p t c m).minutes ≤ maxMinutes := by
  simp only [clamped, defaultMinutes, maxMinutes]; split <;> omega

end Schedule

end TimeSwitch
