import TimeSwitch.Wire.Request

/-!
How requests may be written. A line begins with the letter of its kind; fields have a fixed
number of digits and stand one blank or separator apart. Only the target of an alarm and its
duration may be left out or cut short, and have their defaults then.
-/

namespace TimeSwitch.Wire

open Decimal

/-- A line that may come over the link. -/
structure IsMessage (line : Octets) : Prop where
  nonempty : 1 ≤ line.length
  fits : line.length ≤ lineLimit
  octets : ∀ b ∈ line, isLineOctet b

theorem IsMessage.lt {line : Octets} (h : IsMessage line) : ∀ b ∈ line, b < 128 := by
  intro b hb
  have := h.octets b hb
  simp only [isLineOctet, Bool.and_eq_true, decide_eq_true_eq] at this
  exact this.1.2

/-- A time of day as `HH:MM` behind a blank, or midnight. -/
inductive TimeWritten : List Char → Nat → Nat → Prop
  | omitted : TimeWritten [] 0 0
  | written {hour minute : Nat} (hhour : hour < 24) (hminute : minute < 60) :
      TimeWritten (' ' :: (padded 2 hour ++ ':' :: padded 2 minute)) hour minute

/-- A day behind a dash, or the first. In a leap year the month has that many days. -/
inductive DayWritten (month : Nat) : List Char → Nat → Prop
  | omitted : DayWritten month [] 1
  | written {day : Nat} (hpos : 1 ≤ day) (hday : day ≤ Calendar.daysInMonth true month) :
      DayWritten month ('-' :: padded 2 day) day

/-- The target of an alarm. A target that is left out is the base time, and so is every field
that is not written. -/
inductive TargetWritten : Period → List Char → CivilTime → Prop
  | yearOmitted : TargetWritten .year [] .base
  | year {month day hour minute : Nat} {dayText timeText : List Char} (hmonth : month < 12)
      (hday : DayWritten month dayText day) (htime : TimeWritten timeText hour minute) :
      TargetWritten .year (' ' :: (padded 2 (month + 1) ++ (dayText ++ timeText)))
        { CivilTime.base with month, day, hour, minute }
  | monthOmitted : TargetWritten .month [] .base
  | month {day hour minute : Nat} {timeText : List Char} (hpos : 1 ≤ day) (hday : day ≤ 31)
      (htime : TimeWritten timeText hour minute) :
      TargetWritten .month (' ' :: (padded 2 day ++ timeText))
        { CivilTime.base with day, hour, minute }
  | week {weekday : Weekday} {hour minute : Nat} {timeText : List Char}
      (htime : TimeWritten timeText hour minute) :
      TargetWritten .week (' ' :: (weekday.abbreviation ++ timeText))
        { CivilTime.base with weekday, hour, minute }
  | day {hour minute : Nat} {timeText : List Char} (htime : TimeWritten timeText hour minute) :
      TargetWritten .day timeText { CivilTime.base with hour, minute }
  | hourOmitted : TargetWritten .hour [] .base
  | hour {minute : Nat} (hminute : minute < 60) :
      TargetWritten .hour (' ' :: padded 2 minute) { CivilTime.base with minute }

/-- A duration in minutes, as one to four digits behind ` D`. None, or no minutes, is the
default. -/
inductive DurationWritten : List Char → Nat → Prop
  | omitted : DurationWritten [] Schedule.defaultMinutes
  | written {digits : List Char} (hsome : digits ≠ []) (hfour : digits.length ≤ 4)
      (hdigits : ∀ c ∈ digits, c.isDigit) :
      DurationWritten (' ' :: 'D' :: digits)
        (if Nat.ofDigitChars 10 digits 0 = 0 then Schedule.defaultMinutes
          else Nat.ofDigitChars 10 digits 0)

/-- A request and the text that makes it. -/
inductive Written : List Char → Request → Prop
  | setClock {time : CivilTime} (htime : time.Exists) :
      Written ('A' :: time.render) (.setClock time)
  | readClock : Written ['B'] .readClock
  | setAlarm {slot : AlarmSlot} {period : Period} {target : CivilTime} {count minutes : Nat}
      {targetText durationText : List Char} (hpos : 1 ≤ count) (hcount : count ≤ 50)
      (htarget : TargetWritten period targetText target)
      (hduration : DurationWritten durationText minutes) :
      Written ('C' :: (padded 2 slot ++ ' ' :: (padded 2 count ++ period.letter ::
        (targetText ++ durationText)))) (.setAlarm slot ⟨period, target, count, minutes⟩)
  | clearAlarm {slot : AlarmSlot} : Written ('D' :: padded 2 slot) (.clearAlarm slot)
  | setTrigger {channel : Channel} {formula : List Char} (hsome : formula ≠ []) :
      Written ('E' :: (numeral channel ++ ' ' :: formula))
        (.setTrigger channel (String.ofList formula))
  | clearTrigger {channel : Channel} : Written ('F' :: numeral channel) (.clearTrigger channel)
  | setDirection {channel : Channel} {direction : Direction} :
      Written ('G' :: (numeral channel ++ ' ' :: direction.word)) (.setDirection channel direction)
  | readChannel {channel : Channel} : Written ('H' :: numeral channel) (.readChannel channel)
  | reset : Written ['I'] .reset

end TimeSwitch.Wire
