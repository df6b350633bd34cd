import TimeSwitch.Proofs.Wire.Duration

/-!
Decoding gives a request to exactly those lines that are ways of writing it, and the times in a
request that was decoded exist.
-/

namespace TimeSwitch.Wire

open Octets Sequence

variable {text : List Char} {r : Request}

/-! ### Times that were written -/

/-- The times that a request holds. -/
def Request.times : Request → List CivilTime
  | .setClock time => [time]
  | .setAlarm _ schedule => [schedule.target]
  | .readClock | .clearAlarm _ | .setTrigger .. | .clearTrigger _ | .setDirection .. |
    .readChannel _ | .reset => []

theorem lt_of_timeWritten {hour minute : Nat} (h : TimeWritten text hour minute) :
    hour < 24 ∧ minute < 60 := by
  cases h with
  | omitted => decide
  | written hhour hminute => exact ⟨hhour, hminute⟩

theorem bounds_of_dayWritten {month day : Nat} (hmonth : month < 12)
    (h : DayWritten month text day) : 1 ≤ day ∧ day ≤ Calendar.daysInMonth true month := by
  cases h with
  | omitted =>
      have : 28 ≤ Calendar.daysInMonth true month := Calendar.le_daysInMonth hmonth
      omega
  | written hpos hday => exact ⟨hpos, hday⟩

/-- The base year is a leap year, so every day that may be written exists in it. -/
theorem exists_of_targetWritten {period : Period} {target : CivilTime}
    (h : TargetWritten period text target) : target.Exists := by
  have hbase : CivilTime.base.Exists := CivilTime.defect?_eq_none_iff.1 rfl
  cases h with
  | yearOmitted | monthOmitted | hourOmitted => exact hbase
  | year hmonth hday htime =>
      obtain ⟨hpos, hday⟩ := bounds_of_dayWritten hmonth hday
      obtain ⟨hhour, hminute⟩ := lt_of_timeWritten htime
      have hleap : Calendar.isLeap CivilTime.base.fullYear = true := by decide
      rw [← hleap] at hday
      exact ⟨hbase.year, hmonth, hpos, hday, hhour, hminute, hbase.second⟩
  | month hpos hday htime =>
      obtain ⟨hhour, hminute⟩ := lt_of_timeWritten htime
      exact ⟨hbase.year, hbase.month, hpos, hday, hhour, hminute, hbase.second⟩
  | week htime | day htime =>
      obtain ⟨hhour, hminute⟩ := lt_of_timeWritten htime
      exact ⟨hbase.year, hbase.month, hbase.day_pos, hbase.day_le, hhour, hminute, hbase.second⟩
  | hour hminute =>
      exact ⟨hbase.year, hbase.month, hbase.day_pos, hbase.day_le, hbase.hour, hminute,
        hbase.second⟩

theorem exists_of_written (h : Written text r) : ∀ t ∈ r.times, t.Exists := by
  intro t ht
  cases h with
  | setClock htime =>
      obtain rfl := List.mem_singleton.1 ht
      exact htime
  | setAlarm hpos hcount htarget hduration =>
      obtain rfl := List.mem_singleton.1 ht
      exact exists_of_targetWritten htarget
  | readClock | clearAlarm | setTrigger | clearTrigger | setDirection | readChannel | reset =>
      cases ht

/-! ### Kinds of requests -/

theorem charOfNat_inj {a b : UInt8} (h : Char.ofNat a.toNat = Char.ofNat b.toNat) : a = b := by
  have h := congrArg Char.toNat h
  rw [toNat_charOfNat a.toNat_lt, toNat_charOfNat b.toNat_lt] at h
  exact UInt8.toNat_inj.1 h

theorem ofTag?_of_written {tag : UInt8} (h : Written (Char.ofNat tag.toNat :: text) r) :
    RequestKind.ofTag? tag = some r.kind := by
  have htag : Char.ofNat tag.toNat = Char.ofNat r.kind.tag.toNat := by
    generalize hline : Char.ofNat tag.toNat :: text = line at h
    cases h <;> exact (List.cons.inj hline).1
  rw [charOfNat_inj htag, RequestKind.ofTag?_tag]

theorem tag_of_ofTag? {tag : UInt8} {kind : RequestKind}
    (h : RequestKind.ofTag? tag = some kind) : tag = kind.tag := by
  have := List.find?_some h
  rw [beq_iff_eq] at this
  exact this.symm

theorem written_of_decode_alarm (htext : IsAscii text)
    (h : (Request.separate .setAlarm (ofText text) >>= fun parts =>
      (Reader.fields parts.2 .setAlarm).whole parts.1) = .ok r) : Written ('C' :: text) r := by
  cases hsplit : splitDuration (ofText text) with
  | none =>
      rw [separate_of_none hsplit, ok_bind] at h
      obtain ⟨slot, period, t, count, targetText, hpos, hcount, htarget, rfl, rfl⟩ :=
        (Reader.whole_setAlarm htext).1 h
      rw [clamped_eq hpos hcount (Nat.zero_le _), ← List.append_nil targetText]
      exact .setAlarm hpos hcount htarget .omitted
  | some parts =>
      obtain ⟨before, after⟩ := parts
      -- What stands before the marker is the line of the alarm without its duration.
      have hoctets := eq_of_splitDuration hsplit
      have hbefore : ∀ b ∈ before, b < 128 := by
        intro b hb
        apply lt_of_mem_ofText htext
        rw [hoctets]
        exact List.mem_append_left _ hb
      rw [separate_of_some hsplit, bind_eq_ok] at h
      obtain ⟨_, hparts, h⟩ := h
      obtain ⟨minutes, hminutes, hpure⟩ := bind_eq_ok.1 hparts
      cases hpure
      obtain ⟨digits, rfl, hsome, hfour, hdigits, rfl⟩ := decimal_eq_ok.1 hminutes
      rw [← ofText_toText hbefore] at h hoctets
      obtain ⟨slot, period, t, count, targetText, hpos, hcount, htarget, hbase, rfl⟩ :=
        (Reader.whole_setAlarm (isAscii_toText hbefore)).1 h
      rw [← ofText_duration] at hoctets
      obtain rfl := (ofText_inj htext (by
        simp [isAscii_toText hbefore, isAscii_of_isDigit hdigits])).1 hoctets
      rw [clamped_eq hpos hcount (ofDigitChars_le_maxMinutes hfour hdigits), hbase]
      simp only [List.append_assoc, List.cons_append]
      exact .setAlarm hpos hcount htarget (.written hsome hfour hdigits)

theorem decode_alarm_of_written (htext : IsAscii text) (h : Written ('C' :: text) r) :
    (Request.separate .setAlarm (ofText text) >>= fun parts =>
      (Reader.fields parts.2 .setAlarm).whole parts.1) = .ok r := by
  cases h with
  | @setAlarm slot period target count _ targetText _ hpos hcount htarget hduration =>
      have hcount' : count ≤ Schedule.maxCount := hcount
      cases hduration with
      | omitted =>
          rw [List.append_nil] at htext ⊢
          rw [separate_of_none (splitDuration_alarm htarget), ok_bind]
          refine (Reader.whole_setAlarm htext).2
            ⟨slot, period, target, count, targetText, hpos, hcount', htarget, rfl, ?_⟩
          rw [clamped_eq hpos hcount' (Nat.zero_le _), if_pos rfl]
      | @written digits hsome hfour hdigits =>
          have hbase : ofText (Decimal.padded 2 slot ++ ' ' :: (Decimal.padded 2 count ++
              period.letter :: (targetText ++ ' ' :: 'D' :: digits))) =
              ofText (Decimal.padded 2 slot ++
                ' ' :: (Decimal.padded 2 count ++ period.letter :: targetText)) ++
                32 :: 68 :: ofText digits := by
            rw [← ofText_duration]
            simp only [List.append_assoc, List.cons_append]
          have hdecimal := decimal_eq_ok.2 ⟨digits, rfl, hsome, hfour, hdigits, rfl⟩
          simp only [isAscii_append, isAscii_cons] at htext
          rw [hbase, separate_of_some
            (splitDuration_marker _ (isWord_of_digits hsome hdigits).no_blank), hdecimal]
          refine (Reader.whole_setAlarm (by simp [htext])).2
            ⟨slot, period, target, count, targetText, hpos, hcount', htarget, rfl, ?_⟩
          rw [clamped_eq hpos hcount' (ofDigitChars_le_maxMinutes hfour hdigits)]

/-- Once its letter is known, a body is decoded to what is written as it. -/
theorem decode_fields (kind : RequestKind) (htext : IsAscii text) :
    (Request.separate kind (ofText text) >>= fun parts =>
      (Reader.fields parts.2 kind).whole parts.1) = .ok r ↔
      Written (Char.ofNat kind.tag.toNat :: text) r := by
  cases kind with
  | setClock => exact Reader.whole_setClock htext
  | readClock => exact Reader.whole_readClock htext
  | setAlarm => exact ⟨written_of_decode_alarm htext, decode_alarm_of_written htext⟩
  | clearAlarm => exact Reader.whole_clearAlarm htext
  | setTrigger => exact Reader.whole_setTrigger htext
  | clearTrigger => exact Reader.whole_clearTrigger htext
  | setDirection => exact Reader.whole_setDirection htext
  | readChannel => exact Reader.whole_readChannel htext
  | reset => exact Reader.whole_reset htext

theorem decode_of_isMessage {line : Octets} (h : IsMessage line) :
    Request.decode line = .ok r ↔ Written (toText line) r := by
  cases line with
  | nil => exact absurd h.nonempty (by decide)
  | cons tag body =>
      have hlength := h.fits
      have hall : (tag :: body).all isLineOctet = true := List.all_eq_true.2 h.octets
      have hbody : ∀ b ∈ body, b < 128 := fun b hb => h.lt b (List.mem_cons_of_mem tag hb)
      unfold Request.decode
      dsimp only
      rw [if_neg (Nat.not_lt.2 hlength), hall]
      simp only [Bool.not_true, Bool.false_eq_true, if_false]
      change _ ↔ Written (Char.ofNat tag.toNat :: toText body) r
      cases hkind : RequestKind.ofTag? tag with
      | none =>
          simp only [reduceCtorEq, false_iff]
          intro hwritten
          rw [ofTag?_of_written hwritten] at hkind
          cases hkind
      | some kind =>
          rw [tag_of_ofTag? hkind, ← decode_fields kind (isAscii_toText hbody),
            ofText_toText hbody]

theorem isMessage_of_decode {line : Octets} (h : Request.decode line = .ok r) :
    IsMessage line := by
  cases line with
  | nil => cases h
  | cons tag body =>
      unfold Request.decode at h
      dsimp only at h
      split at h
      · cases h
      · rename_i hlength
        split at h
        · cases h
        · rename_i hall
          rw [Bool.not_eq_true, Bool.not_eq_false'] at hall
          exact ⟨Nat.succ_pos _, Nat.not_lt.1 hlength, List.all_eq_true.1 hall⟩

/-- A request is decoded from exactly the messages that say it, and its times exist. -/
theorem Request.decode_eq_ok_iff_written (line : Octets) (r : Request) :
    (decode line = .ok r ↔ IsMessage line ∧ Written (toText line) r) ∧
      (decode line = .ok r → ∀ t ∈ r.times, t.defect? = none) := by
  have hiff : decode line = .ok r ↔ IsMessage line ∧ Written (toText line) r := by
    constructor
    · intro h
      have hmessage := isMessage_of_decode h
      exact ⟨hmessage, (decode_of_isMessage hmessage).1 h⟩
    · rintro ⟨hmessage, hwritten⟩
      exact (decode_of_isMessage hmessage).2 hwritten
  refine ⟨hiff, ?_⟩
  intro h t ht
  exact CivilTime.defect?_eq_none_iff.2 (exists_of_written (hiff.1 h).2 t ht)

/-- The letter of the period stays where it is, and only the marker behind the blank is cut off. -/
example : Request.decode (ofText "C03 02D D0045".toList) =
    .ok (.setAlarm 3 ⟨.day, .base, 2, 45⟩) := by
  rfl

end TimeSwitch.Wire
