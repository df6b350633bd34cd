import TimeSwitch.Wire.Fields
import TimeSwitch.Wire.Request

/-!
Requests read back from their lines. Everything is checked before a request is given out: first
the line as a whole, then its letter, then its fields from left to right. Only the duration of
an alarm is looked for from the right.
-/

namespace TimeSwitch.Wire

namespace Reader

/-- One digit that names a channel. -/
def channel : Reader Channel := do
  match Channel.ofNat? (← digit 0 3) with
  | some channel => return channel
  | none => throw .range

/-- Two digits that name an alarm slot. -/
def alarmSlot : Reader AlarmSlot := do
  match AlarmSlot.ofNat? (← twoDigits 0 16) with
  | some slot => return slot
  | none => throw .range

/-- The octets of a full date and time. -/
def civilTimeLength : Nat := 21

/-- A date and time as it is rendered, `DDD YY-MM-DD HH:MM:SS`. -/
def civilTime : Reader CivilTime := do
  unless (← rest).length = civilTimeLength do throw .format
  let weekday ← weekday
  expect 32
  let year ← twoDigits 0 CivilTime.lastYear
  expect 45
  let month ← twoDigits 1 12
  expect 45
  let day ← twoDigits 1 31
  expect 32
  let hour ← twoDigits 0 23
  expect 58
  let minute ← twoDigits 0 59
  expect 58
  let second ← twoDigits 0 59
  match CivilTime.checked ⟨year, month - 1, day, weekday, hour, minute, second⟩ with
  | .ok time => return time
  | .error defect => throw (.calendar defect)

/-- A blank with `HH:MM` after it, or nothing, which leaves the time of day as it is. -/
def timeOfDay (target : CivilTime) : Reader CivilTime := do
  unless ← accept 32 do return target
  let hour ← twoDigits 0 23
  expect 58
  let minute ← twoDigits 0 59
  return { target with hour, minute }

/-- A dash with a day of the target's month after it, or nothing. The month has the length that
it has in leap years, so that the last of February can recur. -/
def dayOfMonth (target : CivilTime) : Reader CivilTime := do
  unless ← accept 45 do return target
  let day ← twoDigits 1 31
  if Calendar.daysInMonth true target.month < day then throw (.calendar .day)
  return { target with day }

/-- The fields of a target; what is left out keeps its place in the base time. -/
def target : Period → Reader CivilTime
  | .year => do
    unless ← accept 32 do return .base
    let month ← twoDigits 1 12
    timeOfDay (← dayOfMonth { CivilTime.base with month := month - 1 })
  | .month => do
    unless ← accept 32 do return .base
    let day ← twoDigits 1 31
    timeOfDay { CivilTime.base with day }
  | .week => do
    expect 32
    let weekday ← weekday
    timeOfDay { CivilTime.base with weekday }
  | .day => timeOfDay .base
  | .hour => do
    unless ← accept 32 do return .base
    let minute ← twoDigits 0 59
    return { CivilTime.base with minute }

/-- The letter of a period. -/
def period : Reader Period := do
  match (Octets.toText (← take 1)).head?.bind Period.ofLetter? with
  | some period => return period
  | none => throw .format

/-- An alarm without its duration: slot, count, period and target. -/
def alarm (minutes : Nat) : Reader Request := do
  let slot ← alarmSlot
  expect 32
  let count ← twoDigits 1 Schedule.maxCount
  let period ← period
  let target ← target period
  return .setAlarm slot (.clamped period target count minutes)

/-- All that is left. -/
def takeRest : Reader Octets := do
  take (← rest).length

/-- The fields of a request of the given kind; an alarm's duration comes from elsewhere. -/
def fields (minutes : Nat) : RequestKind → Reader Request
  | .setClock => return .setClock (← civilTime)
  | .readClock => return .readClock
  | .setAlarm => alarm minutes
  | .clearAlarm => return .clearAlarm (← alarmSlot)
  | .setTrigger => do
    let channel ← channel
    expect 32
    let formula := Octets.toText (← takeRest)
    if formula.isEmpty then throw .format
    return .setTrigger channel (String.ofList formula)
  | .clearTrigger => return .clearTrigger (← channel)
  | .setDirection => do
    let channel ← channel
    expect 32
    match Direction.ofWord? (Octets.toText (← takeRest)) with
    | some direction => return .setDirection channel direction
    | none => throw .format
  | .readChannel => return .readChannel (← channel)
  | .reset => return .reset

/-- Reads all of a body. -/
def whole (reader : Reader α) (body : Octets) : Except DecodeFault α :=
  match (do let a ← reader; finish; return a : Reader α) (Body.start body) with
  | .ok a _ => .ok a
  | .error fault _ => .error fault

end Reader

/-- Splits a body at the last blank that a `D` follows, into what stands before and after. -/
def splitDuration : Octets → Option (Octets × Octets)
  | [] => none
  | b :: rest =>
    match splitDuration rest with
    | some (before, after) => some (b :: before, after)
    | none => match b, rest with
      | 32, 68 :: after => some ([], after)
      | _, _ => none

namespace Request

/-- The fields of a body and the minutes of its duration. Only an alarm has one; none counts as
no minutes. -/
def separate (kind : RequestKind) (body : Octets) : Except DecodeFault (Octets × Nat) :=
  match kind, splitDuration body with
  | .setAlarm, some (before, after) => do return (before, ← decimal after)
  | _, _ => return (body, 0)

/-- The request that a line makes. -/
def decode (line : Octets) : Except DecodeFault Request :=
  match line with
  | [] => .error .empty
  | tag :: body =>
    if lineLimit < line.length then .error .tooLong
    else if !line.all isLineOctet then .error .format
    else match RequestKind.ofTag? tag with
      | none => .error (.unknownTag tag)
      | some kind => do
        let (body, minutes) ← separate kind body
        (Reader.fields minutes kind).whole body

end Request

end TimeSwitch.Wire
