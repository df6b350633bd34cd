import TimeSwitch.Proofs.Alarm.Targets
import TimeSwitch.Proofs.Wire.Encoding

/-!
Alarms over the wire. The line of an alarm carries only those fields of its target that its
period compares, and the alarm that is made of it behaves as the one that it was written for.
-/

namespace TimeSwitch.Wire

open Alarm

/-- What is carried of a target recurs when the target does. -/
theorem recurs_carriedTarget (period : Period) (t now : CivilTime) :
    period.recurs (carriedTarget period t) now = period.recurs t now := by
  cases period <;> rfl

/-- An alarm whose target exists can be encoded, and what its line decodes to keeps slot, period,
count and duration. The target may have changed, but whatever happens to the two alarms, they show
the same. -/
theorem Request.decoded_alarm_behaves_alike (slot : AlarmSlot) (period : Period)
    (target : CivilTime) (count minutes : Nat) (htarget : target.defect? = none) :
    let s := Schedule.clamped period target count minutes
    ∃ line s', (setAlarm slot s).encode = .ok line ∧ decode line = .ok (setAlarm slot s') ∧
      s'.period = period ∧ s'.count = s.count ∧ s'.minutes = s.minutes ∧
      ∀ events, shown events (ofSchedule s') = shown events (ofSchedule s) := by
  intro s
  obtain ⟨hpos, hcount⟩ := Schedule.count_clamped_bounds period target count minutes
  obtain ⟨hminutes, hmax⟩ := Schedule.minutes_clamped_bounds period target count minutes
  have hexists : s.target.Exists := CivilTime.defect?_eq_none_iff.1 htarget
  have hmessage : IsMessage (Octets.ofText (setAlarm slot s).lineText) :=
    isMessage_setAlarm hcount hmax hexists
  have hsame : SameTimes (carriedTarget period target) (ofSchedule s) :=
    recurs_carriedTarget period target
  exact ⟨_, _, encode_eq_ok.2 ⟨rfl, hmessage.fits⟩,
    decode_lineText_setAlarm hpos hcount hminutes hmax hexists, rfl, rfl, rfl,
    shown_withTarget hsame⟩

/-- A leap day of 2024 with a wrong weekday and with seconds, which come back as defaults. Every
second recurrence fires, the first time after four years and for a minute. -/
theorem Request.decoded_alarm_behaves_alike_leap_day :
    let target : CivilTime := ⟨24, 1, 29, .monday, 23, 59, 30⟩
    let s := Schedule.clamped .year target 2 1
    let carried : CivilTime := ⟨0, 1, 29, .saturday, 23, 59, 0⟩
    let events : List Alarm.Event :=
      [.tick target, .tick { target with year := 28 }, .tick ⟨28, 2, 1, .wednesday, 0, 0, 31⟩]
    (setAlarm 3 s).encode = .ok (Octets.ofText "C03 02Y 02-29 23:59 D1".toList) ∧
      decode (Octets.ofText "C03 02Y 02-29 23:59 D1".toList) =
        .ok (setAlarm 3 { s with target := carried }) ∧
      shown events (ofSchedule { s with target := carried }) = shown events (ofSchedule s) ∧
      (shown events (ofSchedule s)).map (·.said) = [some false, some true, some false] := by
  intro target s carried events
  obtain ⟨line, s', hencode, hdecode, -, -, -, hshown⟩ :=
    decoded_alarm_behaves_alike 3 .year target 2 1 (by decide)
  have hline : (setAlarm 3 s).encode = .ok (Octets.ofText "C03 02Y 02-29 23:59 D1".toList) := by
    cbv
  have hcarried : decode (Octets.ofText "C03 02Y 02-29 23:59 D1".toList) =
      .ok (setAlarm 3 { s with target := carried }) := by
    rfl
  rw [hline] at hencode
  cases hencode
  rw [hcarried] at hdecode
  cases hdecode
  exact ⟨hline, hcarried, hshown events, by decide +kernel⟩

end TimeSwitch.Wire
