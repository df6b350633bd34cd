import TimeSwitch.Proofs.Wire.Decoding
import TimeSwitch.Proofs.Wire.Replies

/-!
Encoding undoes decoding. The line that a request is encoded as is one of the ways of writing it.
Only an alarm has several: its line writes out every field that its period compares, and a
duration only if it is not the default, so it is the same however the alarm was written before.
-/

namespace TimeSwitch.Wire

open Decimal Octets

/-! ### Numbers -/

theorem length_padded_two {n : Nat} (h : n < 100) : (padded 2 n).length = 2 := by
  rw [padded_two_of_lt h]
  rfl

theorem length_numeral_minutes {n : Nat} (h : n ≤ Schedule.maxMinutes) :
    (numeral n).length ≤ 4 := by
  rw [numeral, Nat.length_toDigits_le_iff (by decide) (by decide)]
  exact Nat.lt_succ_of_le h

theorem isPrintable_numeral (n : Nat) : IsPrintable (numeral n) := by
  intro c hc
  have := toNat_of_isDigit (isDigit_of_mem_numeral hc)
  omega

/-! ### Lines -/

/-- The text of the line that a request is encoded as. -/
def Request.lineText (r : Request) : List Char :=
  Char.ofNat r.kind.tag.toNat :: r.bodyText

theorem ofText_lineText (r : Request) : ofText r.lineText = r.kind.tag :: ofText r.bodyText := by
  have htag : (Char.ofNat r.kind.tag.toNat).toNat = r.kind.tag.toNat :=
    toNat_charOfNat r.kind.tag.toNat_lt
  have hascii : r.kind.tag.toNat < 128 := by
    cases r.kind <;> decide
  rw [Request.lineText, ofText_cons_of_ascii (by rwa [htag]), htag, UInt8.ofNat_toNat]

theorem encode_eq_ok {r : Request} {line : Octets} :
    r.encode = .ok line ↔ ofText r.lineText = line ∧ line.length ≤ lineLimit := by
  rw [ofText_lineText]
  unfold Request.encode
  dsimp only
  split
  · rename_i hfits
    rw [Except.ok.injEq]
    constructor
    · rintro rfl
      exact ⟨rfl, hfits⟩
    · exact And.left
  · rename_i hlong
    simp only [reduceCtorEq, false_iff]
    rintro ⟨rfl, hfits⟩
    exact hlong hfits

/-! ### Alarms -/

/-- What the line of an alarm says of its target: the fields that the period compares. -/
def carriedTarget : Period → CivilTime → CivilTime
  | .year, t => { CivilTime.base with
      month := t.month, day := t.day, hour := t.hour, minute := t.minute }
  | .month, t => { CivilTime.base with day := t.day, hour := t.hour, minute := t.minute }
  | .week, t => { CivilTime.base with weekday := t.weekday, hour := t.hour, minute := t.minute }
  | .day, t => { CivilTime.base with hour := t.hour, minute := t.minute }
  | .hour, t => { CivilTime.base with minute := t.minute }

/-- A target that was read has nothing in it but what a line can carry. -/
theorem carriedTarget_of_targetWritten {period : Period} {text : List Char} {t : CivilTime}
    (h : TargetWritten period text t) : carriedTarget period t = t := by
  cases h <;> rfl

theorem timeWritten_timeOfDayText {t : CivilTime} (h : t.Exists) :
    TimeWritten (' ' :: Request.timeOfDayText t) t.hour t.minute :=
  .written h.hour h.minute

theorem targetWritten_targetText (period : Period) {t : CivilTime} (h : t.Exists) :
    TargetWritten period (' ' :: Request.targetText period t) (carriedTarget period t) := by
  have htime := timeWritten_timeOfDayText h
  cases period with
  | year =>
      have hday := Nat.le_trans h.day_le (Calendar.daysInMonth_le_leap _ _)
      have hwritten := TargetWritten.year h.month (.written h.day_pos hday) htime
      rwa [← List.append_assoc] at hwritten
  | month => exact .month h.day_pos (CivilTime.day_le_of_exists h) htime
  | week => exact .week htime
  | day => exact .day htime
  | hour => exact .hour h.minute

theorem bounds_of_durationWritten {text : List Char} {minutes : Nat}
    (h : DurationWritten text minutes) : 1 ≤ minutes ∧ minutes ≤ Schedule.maxMinutes := by
  cases h with
  | omitted => decide
  | written hsome hfour hdigits =>
      have hle := ofDigitChars_le_maxMinutes hfour hdigits
      split
      · decide
      · omega

theorem durationWritten_durationText {minutes : Nat} (hpos : 1 ≤ minutes)
    (hle : minutes ≤ Schedule.maxMinutes) :
    DurationWritten (Request.durationText minutes) minutes := by
  unfold Request.durationText
  split
  · rename_i hdefault
    rw [hdefault]
    exact .omitted
  · have hwritten : DurationWritten (' ' :: 'D' :: numeral minutes) _ :=
      .written Nat.toDigits_ne_nil (length_numeral_minutes hle) fun _ => isDigit_of_mem_numeral
    have hvalue : Nat.ofDigitChars 10 (numeral minutes) 0 = minutes := Nat.ofDigitChars_ten_toDigits
    rwa [hvalue, if_neg (by omega)] at hwritten

section Schedules

variable {slot : AlarmSlot} {s : Schedule}

theorem lineText_setAlarm (slot : AlarmSlot) (s : Schedule) :
    (Request.setAlarm slot s).lineText =
      'C' :: (padded 2 slot ++ ' ' :: (padded 2 s.count ++ s.period.letter ::
        (' ' :: Request.targetText s.period s.target ++ Request.durationText s.minutes))) := by
  have hletter : Char.ofNat RequestKind.setAlarm.tag.toNat = 'C' := rfl
  simp only [Request.lineText, Request.kind, Request.bodyText, hletter, List.append_assoc,
    List.cons_append]

theorem isPrintable_targetText (period : Period) (t : CivilTime) :
    IsPrintable (Request.targetText period t) := by
  cases period <;> simp [Request.targetText, Request.timeOfDayText, isPrintable_abbreviation]

theorem isPrintable_durationText (minutes : Nat) : IsPrintable (Request.durationText minutes) := by
  unfold Request.durationText
  split <;> simp [isPrintable_numeral]

theorem length_targetText_le (period : Period) {t : CivilTime} (h : t.Exists) :
    (Request.targetText period t).length ≤ 11 := by
  have hday := CivilTime.day_le_of_exists h
  have hmonth := h.month
  have hhour := h.hour
  have hminute := h.minute
  cases period <;>
    simp [Request.targetText, Request.timeOfDayText,
      length_padded_two (show t.month + 1 < 100 by omega),
      length_padded_two (show t.day < 100 by omega),
      length_padded_two (show t.hour < 100 by omega),
      length_padded_two (show t.minute < 100 by omega)]

theorem length_durationText_le {minutes : Nat} (h : minutes ≤ Schedule.maxMinutes) :
    (Request.durationText minutes).length ≤ 6 := by
  have := length_numeral_minutes h
  unfold Request.durationText
  split
  · exact Nat.zero_le _
  · simp only [List.length_cons]
    omega

theorem isPrintable_setAlarm (slot : AlarmSlot) (s : Schedule) :
    IsPrintable (Request.setAlarm slot s).lineText := by
  have hletter : IsPrintable [s.period.letter] := by
    cases s.period <;> simp [Period.letter]
  rw [isPrintable_cons] at hletter
  rw [lineText_setAlarm]
  simp [hletter, isPrintable_targetText, isPrintable_durationText]

/-- The longest line of an alarm has room to spare. -/
theorem isMessage_setAlarm (hcount : s.count ≤ Schedule.maxCount)
    (hmax : s.minutes ≤ Schedule.maxMinutes) (htarget : s.target.Exists) :
    IsMessage (ofText (Request.setAlarm slot s).lineText) := by
  have hprintable := isPrintable_setAlarm slot s
  have hlength : (ofText (Request.setAlarm slot s).lineText).length ≤ 25 := by
    have hslot := slot.isLt
    have hhundred : s.count < 100 := Nat.lt_of_le_of_lt hcount (by decide)
    have := length_targetText_le s.period htarget
    have := length_durationText_le hmax
    rw [length_ofText (isAscii_of_isPrintable hprintable), lineText_setAlarm]
    simp only [List.length_cons, List.length_append, length_padded_two hhundred,
      length_padded_two (show slot.val < 100 by omega)]
    omega
  refine ⟨?_, Nat.le_trans hlength (by decide), isLineOctet_of_isPrintable hprintable⟩
  rw [ofText_lineText]
  exact Nat.succ_pos _

/-- A line carries an alarm whose limits are kept, except for the fields of the target that the
period does not compare. -/
theorem decode_lineText_setAlarm (hpos : 1 ≤ s.count) (hcount : s.count ≤ Schedule.maxCount)
    (hminutes : 1 ≤ s.minutes) (hmax : s.minutes ≤ Schedule.maxMinutes) (htarget : s.target.Exists) :
    Request.decode (ofText (Request.setAlarm slot s).lineText) =
      .ok (.setAlarm slot { s with target := carriedTarget s.period s.target }) := by
  rw [decode_of_isMessage (isMessage_setAlarm hcount hmax htarget),
    toText_ofText (isAscii_of_isPrintable (isPrintable_setAlarm slot s)), lineText_setAlarm]
  exact .setAlarm hpos hcount (targetWritten_targetText s.period htarget)
    (durationWritten_durationText hminutes hmax)

end Schedules

/-! ### Writing what was read -/

variable {text : List Char} {line : Octets} {r : Request}

theorem lineText_of_written (h : Written text r) (hkind : r.kind ≠ .setAlarm) :
    r.lineText = text := by
  cases h with
  | setAlarm => exact (hkind rfl).elim
  | @setTrigger channel formula hsome =>
      show 'E' :: (numeral channel ++ ' ' :: (String.ofList formula).toList) = _
      rw [String.toList_ofList]
  | setClock | readClock | clearAlarm | clearTrigger | setDirection | readChannel | reset => rfl

/-- There is one way only of writing a request that is no alarm. -/
theorem ofText_lineText_of_decode (h : Request.decode line = .ok r) (hkind : r.kind ≠ .setAlarm) :
    ofText r.lineText = line := by
  have hmessage := isMessage_of_decode h
  rw [lineText_of_written ((decode_of_isMessage hmessage).1 h) hkind, ofText_toText hmessage.lt]

theorem decode_lineText {r : Request} (h : Request.decode line = .ok r) :
    IsMessage (ofText r.lineText) ∧ Request.decode (ofText r.lineText) = .ok r := by
  have hmessage := isMessage_of_decode h
  cases r with
  | setAlarm slot s =>
      have hwritten := (decode_of_isMessage hmessage).1 h
      generalize toText line = text at hwritten
      cases hwritten with
      | setAlarm hpos hcount htarget hduration =>
          obtain ⟨hminutes, hmax⟩ := bounds_of_durationWritten hduration
          have hexists := exists_of_targetWritten htarget
          refine ⟨isMessage_setAlarm hcount hmax hexists, ?_⟩
          rw [decode_lineText_setAlarm hpos hcount hminutes hmax hexists,
            carriedTarget_of_targetWritten htarget]
  | setClock | readClock | clearAlarm | setTrigger | clearTrigger | setDirection | readChannel |
    reset =>
      rw [ofText_lineText_of_decode h nofun]
      exact ⟨hmessage, h⟩

/-- The request of a line is encoded as a message that decodes to it again, in all its fields. This
is the same line, except that an alarm may have been written in other ways; its message is the one
that all of them come to, and no other request has it. -/
theorem Request.encode_inverts_decode (line : Octets) (r : Request) (h : decode line = .ok r) :
    ∃ message, r.encode = .ok message ∧ IsMessage message ∧ decode message = .ok r ∧
      (r.kind ≠ .setAlarm → message = line) ∧
      ∀ line' r', decode line' = .ok r' → (r'.encode = .ok message ↔ r' = r) := by
  obtain ⟨hmessage, hdecode⟩ := decode_lineText h
  have hencode : r.encode = .ok (ofText r.lineText) := encode_eq_ok.2 ⟨rfl, hmessage.fits⟩
  refine ⟨_, hencode, hmessage, hdecode, ofText_lineText_of_decode h, ?_⟩
  intro line' r' h'
  constructor
  · intro hencode'
    have hdecode' := (decode_lineText h').2
    rw [(encode_eq_ok.1 hencode').1, hdecode] at hdecode'
    exact (Except.ok.inj hdecode').symm
  · rintro rfl
    exact hencode

/-- A day of a leap year with a duration that says nothing: the time of day is written out and the
duration left off. -/
theorem Request.encode_inverts_decode_leap_day :
    let line := ofText "C16 05Y 02-29 D0".toList
    let r := Request.setAlarm 16 ⟨.year, { CivilTime.base with month := 1, day := 29 }, 5, 60⟩
    decode line = .ok r ∧ r.encode = .ok (ofText "C16 05Y 02-29 00:00".toList) ∧
      decode (ofText "C16 05Y 02-29 00:00".toList) = .ok r := by
  intro line r
  have h : decode line = .ok r := by rfl
  obtain ⟨message, hencode, -, hdecode, -, -⟩ := encode_inverts_decode line r h
  have hmessage : r.encode = .ok (ofText "C16 05Y 02-29 00:00".toList) := by rfl
  rw [hmessage] at hencode
  cases hencode
  exact ⟨h, hmessage, hdecode⟩

end TimeSwitch.Wire
