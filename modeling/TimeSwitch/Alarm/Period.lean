import TimeSwitch.Calendar.CivilTime

/-!
How often an alarm recurs. A period is known by the calendar fields that it compares: a moment
recurs when it agrees with the target on all of them.
-/

namespace TimeSwitch

/-- A calendar field that a recurrence may have to agree on. -/
inductive CalendarField
  | month | dayOfMonth | weekday | hour | minute
  deriving DecidableEq, Repr

/-- The two times show the same in that field. -/
def CalendarField.agrees (target now : CivilTime) : CalendarField → Bool
  | month => target.month == now.month
  | dayOfMonth => target.day == now.day
  | weekday => target.weekday == now.weekday
  | hour => target.hour == now.hour
  | minute => target.minute == now.minute

inductive Period
  | hour | day | week | month | year
  deriving DecidableEq, Repr, Inhabited

namespace Period

def all : List Period := [hour, day, week, month, year]

def letter : Period → Char
  | hour => 'H'
  | day => 'D'
  | week => 'W'
  | month => 'M'
  | year => 'Y'

def ofLetter? (c : Char) : Option Period :=
  all.find? fun period => period.letter == c

/-- The fields compared, from the coarsest down. -/
def fields : Period → List CalendarField
  | year => [.month, .dayOfMonth, .hour, .minute]
  | month => [.dayOfMonth, .hour, .minute]
  | week => [.weekday, .hour, .minute]
  | day => [.hour, .minute]
  | hour => [.minute]

/-- The target recurs at `now`. -/
def recurs (period : Period) (target now : CivilTime) : Bool :=
  period.fields.all (·.agrees target now)

@[simp] theorem ofLetter?_letter (period : Period) : ofLetter? period.letter = some period := by
  cases period <;> rfl

/-- A target recurs at itself, whatever the period. -/
@[simp] theorem recurs_self (period : Period) (t : CivilTime) : period.recurs t t = true := by
  cases period <;> simp [recurs, fields, CalendarField.agrees]

end Period

end TimeSwitch
