import TimeSwitch.Calendar.Spans

/-!
Leap years and the lengths of years and months. Months are counted from zero, so January is 0
and December is 11; a number past December names no month and has no days.
-/

namespace TimeSwitch.Calendar

def isLeap (year : Nat) : Bool :=
  (year % 4 == 0 && year % 100 != 0) || year % 400 == 0

def daysInYear (year : Nat) : Nat :=
  if isLeap year then 366 else 365

/-- The lengths of the twelve months. -/
def monthLengths (leap : Bool) : List Nat :=
  [31, if leap then 29 else 28, 31, 30, 31, 30, 31, 31, 30, 31, 30, 31]

def daysInMonth (leap : Bool) (month : Nat) : Nat :=
  (monthLengths leap)[month]?.getD 0

@[simp] theorem length_monthLengths (leap : Bool) : (monthLengths leap).length = 12 := rfl

/-- The months of a year add up to the year. -/
theorem totalDays_monthLengths (year : Nat) :
    totalDays (monthLengths (isLeap year)) = daysInYear year := by
  unfold daysInYear
  cases isLeap year <;> rfl

theorem getElem_monthLengths {leap : Bool} {month : Nat} (h : month < (monthLengths leap).length) :
    (monthLengths leap)[month] = daysInMonth leap month := by
  simp [daysInMonth, List.getElem?_eq_getElem h]

theorem daysInMonth_le (leap : Bool) (month : Nat) : daysInMonth leap month ≤ 31 := by
  by_cases h : month < 12
  · revert month; cases leap <;> decide
  · rw [daysInMonth, List.getElem?_eq_none (by simpa using h)]; simp

theorem le_daysInMonth {leap : Bool} {month : Nat} (h : month < 12) :
    28 ≤ daysInMonth leap month := by
  revert month; cases leap <;> decide

/-- A month is no longer in any other year than in a leap year. -/
theorem daysInMonth_le_leap (leap : Bool) (month : Nat) :
    daysInMonth leap month ≤ daysInMonth true month := by
  by_cases h : month < 12
  · revert month; cases leap <;> decide
  · rw [daysInMonth, List.getElem?_eq_none (by simpa using h)]; simp

theorem le_daysInYear (year : Nat) : 365 ≤ daysInYear year := by
  unfold daysInYear; split <;> omega

end TimeSwitch.Calendar
