import TimeSwitch.Alarm.Slots
import TimeSwitch.Channel
import TimeSwitch.Wire.Line

/-!
The requests a host may make of the device, and the line each is written as. A line begins with
the letter of its kind.
-/

namespace TimeSwitch.Wire

inductive RequestKind
  | setClock | readClock | setAlarm | clearAlarm | setTrigger | clearTrigger | setDirection
  | readChannel | reset
  deriving DecidableEq, Repr

namespace RequestKind

def all : List RequestKind :=
  [setClock, readClock, setAlarm, clearAlarm, setTrigger, clearTrigger, setDirection,
    readChannel, reset]

/-- The letters from `A` to `I`. -/
def tag : RequestKind → UInt8
  | setClock => 65
  | readClock => 66
  | setAlarm => 67
  | clearAlarm => 68
  | setTrigger => 69
  | clearTrigger => 70
  | setDirection => 71
  | readChannel => 72
  | reset => 73

def ofTag? (tag : UInt8) : Option RequestKind :=
  all.find? fun kind => kind.tag == tag

@[simp] theorem ofTag?_tag (kind : RequestKind) : ofTag? kind.tag = some kind := by
  cases kind <;> rfl

end RequestKind

inductive Request
  | setClock (time : CivilTime)
  | readClock
  | setAlarm (slot : AlarmSlot) (schedule : Schedule)
  | clearAlarm (slot : AlarmSlot)
  /-- The text of a formula, kept as it is. -/
  | setTrigger (channel : Channel) (formula : String)
  | clearTrigger (channel : Channel)
  | setDirection (channel : Channel) (direction : Direction)
  | readChannel (channel : Channel)
  | reset
  deriving DecidableEq

namespace Request

def kind : Request → RequestKind
  | setClock _ => .setClock
  | readClock => .readClock
  | setAlarm .. => .setAlarm
  | clearAlarm _ => .clearAlarm
  | setTrigger .. => .setTrigger
  | clearTrigger _ => .clearTrigger
  | setDirection .. => .setDirection
  | readChannel _ => .readChannel
  | reset => .reset

def timeOfDayText (t : CivilTime) : List Char :=
  Decimal.padded 2 t.hour ++ ':' :: Decimal.padded 2 t.minute

/-- The fields of the target that the period compares. -/
def targetText (period : Period) (t : CivilTime) : List Char :=
  match period with
  | .year => Decimal.padded 2 (t.month + 1) ++ '-' :: Decimal.padded 2 t.day ++
      ' ' :: timeOfDayText t
  | .month => Decimal.padded 2 t.day ++ ' ' :: timeOfDayText t
  | .week => t.weekday.abbreviation ++ ' ' :: timeOfDayText t
  | .day => timeOfDayText t
  | .hour => Decimal.padded 2 t.minute

/-- A duration is written only if it is not the default. -/
def durationText (minutes : Nat) : List Char :=
  if minutes = Schedule.defaultMinutes then [] else ' ' :: 'D' :: Decimal.numeral minutes

/-- What follows the letter of the kind. -/
def bodyText : Request → List Char
  | setClock time => time.render
  | readClock | reset => []
  | setAlarm slot s =>
    Decimal.padded 2 slot ++ ' ' :: Decimal.padded 2 s.count ++ s.period.letter :: ' ' ::
      targetText s.period s.target ++ durationText s.minutes
  | clearAlarm slot => Decimal.padded 2 slot
  | setTrigger channel formula => Decimal.numeral channel ++ ' ' :: formula.toList
  | clearTrigger channel | readChannel channel => Decimal.numeral channel
  | setDirection channel direction => Decimal.numeral channel ++ ' ' :: direction.word

/-- The line of a request, unless it is too long for one. -/
def encode (r : Request) : Except LineFault Octets :=
  let line := r.kind.tag :: Octets.ofText r.bodyText
  if line.length ≤ lineLimit then .ok line else .error .overflow

end Request

end TimeSwitch.Wire
