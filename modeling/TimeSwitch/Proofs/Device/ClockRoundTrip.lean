import TimeSwitch.Bench.Pin
import TimeSwitch.Proofs.Calendar.Seconds
import TimeSwitch.Proofs.Device.Verdicts
import TimeSwitch.Proofs.Device.Histories
import TimeSwitch.Proofs.Wire.Encoding

/-!
A clock is read as it was set. On the way a time is written and read, turned into seconds and a
shift of the weekday, and turned back; nothing of it is lost, not even a weekday that is not the
one of the date. So a clock may also be set to what it was just read to have, and that changes
nothing.
-/

namespace TimeSwitch

theorem Weekday.afterSunday_shift (day calendar : Weekday) :
    afterSunday (calendar.index + (day.index + 7 - calendar.index) % 7) = day := by
  cases day <;> cases calendar <;> rfl

theorem Weekday.afterSunday_add_mod (m n : Nat) : afterSunday (m + n % 7) = afterSunday (m + n) := by
  rw [afterSunday, afterSunday, Nat.add_mod_mod]

namespace Device

open Octets Sequence Wire

namespace SoftClock

variable {clock after : SoftClock} {time : CivilTime}

/-! ### The clock -/

theorem set_eq_ok (h : time.Exists) (clock : SoftClock) :
    set time clock = .ok ()
      ⟨some time.toUnix, (time.weekday.index + 7 - time.calendarWeekday.index) % 7⟩ := by
  rw [set, CivilTime.checked_eq_ok.2 ⟨h, rfl⟩, CivilTime.ofUnix_toUnix h]

theorem exists_of_set (h : set time clock = .ok () after) : time.Exists := by
  rw [set] at h
  split at h
  · rename_i hchecked _
    exact (CivilTime.checked_eq_ok.1 hchecked).1
  · cases h

/-- A clock that was set to a time shows that time, with its weekday. -/
theorem now_of_set (hset : set time clock = .ok () after) : now after = .ok time after := by
  have h := exists_of_set hset
  rw [set_eq_ok h clock] at hset
  obtain ⟨-, rfl⟩ := EStateM.Result.ok.inj hset
  rw [now]
  dsimp only
  rw [CivilTime.ofUnix_toUnix h]
  dsimp only
  rw [Weekday.afterSunday_shift]

theorem calendar_of_now (h : now clock = .ok time after) :
    ∃ s calendar, clock.seconds = some s ∧ CivilTime.ofUnix s = .ok calendar ∧
      time = { calendar with
        weekday := .afterSunday (calendar.weekday.index + clock.weekdayShift) } ∧
      after = clock := by
  rw [now] at h
  cases hseconds : clock.seconds with
  | none =>
      rw [hseconds] at h
      cases h
  | some s =>
      rw [hseconds] at h
      dsimp only at h
      cases hcalendar : CivilTime.ofUnix s with
      | error defect =>
          rw [hcalendar] at h
          cases h
      | ok calendar =>
          rw [hcalendar] at h
          obtain ⟨rfl, rfl⟩ := EStateM.Result.ok.inj h
          exact ⟨s, calendar, rfl, hcalendar, rfl, rfl⟩

theorem seconds_of_now (h : now clock = .ok time after) : clock.seconds = some time.toUnix := by
  obtain ⟨s, calendar, hseconds, hcalendar, rfl, -⟩ := calendar_of_now h
  rw [hseconds, CivilTime.toUnix_weekday, CivilTime.toUnix_of_ofUnix hcalendar]

/-- Setting a clock to what it shows takes whole weeks out of the shift of its weekday. -/
theorem set_of_now (h : now clock = .ok time after) :
    set time clock = .ok () { clock with weekdayShift := clock.weekdayShift % 7 } := by
  obtain ⟨s, calendar, hseconds, hcalendar, htime, -⟩ := calendar_of_now h
  have hunix : time.toUnix = s := Option.some.inj ((seconds_of_now h).symm.trans hseconds)
  have hfound := CivilTime.ofUnix_toUnix (exists_of_now h)
  rw [hunix, hcalendar] at hfound
  have hweekday : time.calendarWeekday = calendar.weekday :=
    (congrArg CivilTime.weekday (Except.ok.inj hfound)).symm
  have hshown : time.weekday.index = (calendar.weekday.index + clock.weekdayShift) % 7 := by
    rw [htime, Weekday.index_afterSunday]
  have hlt := Weekday.index_lt calendar.weekday
  -- the shift is what the weekday shown is ahead of the calendar, up to whole weeks
  have hshift : (time.weekday.index + 7 - time.calendarWeekday.index) % 7 =
      clock.weekdayShift % 7 := by
    rw [hweekday, hshown]
    omega
  rw [set_eq_ok (exists_of_now h), hunix, hshift, ← hseconds]

/-- Whole weeks in the shift do not show, however far the clock is advanced. -/
theorem outcomeOf_now_mod (clock : SoftClock) (seconds : Nat) :
    outcomeOf (now (advance { clock with weekdayShift := clock.weekdayShift % 7 } seconds)) =
      outcomeOf (now (clock.advance seconds)) := by
  simp only [now, advance]
  cases clock.seconds with
  | none => rfl
  | some s =>
      dsimp only [Option.map_some]
      cases CivilTime.ofUnix (min (s + seconds) maxSeconds) with
      | error defect => rfl
      | ok calendar =>
          dsimp only
          rw [Weekday.afterSunday_add_mod]
          rfl

end SoftClock

/-! ### Lines that set and read the clock -/

theorem isMessage_setClock {time : CivilTime} (h : time.Exists) :
    IsMessage (65 :: ofText time.render) := by
  have hline : ofText ('A' :: time.render) = 65 :: ofText time.render :=
    ofText_cons_of_ascii (by decide)
  have hprintable : IsPrintable ('A' :: time.render) :=
    isPrintable_cons.2 ⟨by decide, isPrintable_render time⟩
  refine ⟨Nat.succ_pos _, ?_, hline ▸ isLineOctet_of_isPrintable hprintable⟩
  rw [List.length_cons, length_ofText (CivilTime.isAscii_render time), CivilTime.length_render h]
  decide

/-- The lines that set a clock are those that write a time that exists. -/
theorem decode_setClock_iff {text : Octets} {request : Request} :
    Request.decode (65 :: text) = .ok request ↔
      ∃ time, time.Exists ∧ text = ofText time.render ∧ request = .setClock time := by
  constructor
  · intro h
    have hmessage := isMessage_of_decode h
    have hwritten := (decode_of_isMessage hmessage).1 h
    have hkind : RequestKind.ofTag? 65 = some request.kind := ofTag?_of_written hwritten
    cases request with
    | setClock time =>
        refine ⟨time, exists_of_written hwritten time (List.mem_singleton_self time), ?_, rfl⟩
        have hline := ofText_lineText_of_decode h nofun
        rw [ofText_lineText] at hline
        exact (List.cons.inj hline).2.symm
    | readClock | setAlarm | clearAlarm | setTrigger | clearTrigger | setDirection | readChannel |
      reset => cases hkind
  · rintro ⟨time, htime, rfl, rfl⟩
    rw [decode_of_isMessage (isMessage_setClock htime)]
    have htext : toText (65 :: ofText time.render) = 'A' :: toText (ofText time.render) := rfl
    rw [htext, toText_ofText (CivilTime.isAscii_render time)]
    exact .setClock htime

namespace Controller

variable {π : Type} [Pin π] {c : Controller SoftClock π}

theorem handled_setClock {time : CivilTime} (h : time.Exists) {clock : SoftClock}
    (hset : Clock.set time c.clock = .ok () clock) :
    handled (65 :: ofText time.render) c =
      { c with clock }.withOutbox (some (ofText ">A OK".toList)) := by
  rw [handled_of_ok (decode_setClock_iff.2 ⟨time, h, rfl, rfl⟩), perform_setClock, hset]
  rfl

theorem handled_readClock {time : CivilTime} {clock : SoftClock}
    (hnow : Clock.now c.clock = .ok time clock) :
    handled [66] c = { c with clock }.withOutbox (some (62 :: 66 :: ofText time.render)) := by
  have hdecode : Request.decode [66] = .ok .readClock := rfl
  have hgiven : Request.readClock.Gives (.time time) :=
    ⟨time, rfl, SoftClock.exists_of_now hnow⟩
  rw [handled_of_ok hdecode, perform_readClock, hnow]
  dsimp only
  rw [replyOf, push?_ownText rfl hgiven]
  rfl

theorem handled_readClock_of_error {fault : ClockFault} {clock : SoftClock}
    (hnow : Clock.now c.clock = .error fault clock) :
    handled [66] c =
      { c with clock }.withOutbox (some (62 :: 66 :: ofText " FAIL".toList)) := by
  have hdecode : Request.decode [66] = .ok .readClock := rfl
  rw [handled_of_ok hdecode, perform_readClock, hnow]
  rfl

/-- Whatever time a line sets the clock to, a line that reads it right afterwards is answered with
the same text. And whatever text the clock was answered to be, unless that is a failure, a line may
set it to: this is done, and no reading of the clock is different for it, now or later. -/
theorem clock_is_read_as_set (c : Controller SoftClock π) :
    (∀ text request, Request.decode (65 :: text) = .ok request →
      let after := handled (65 :: text) c
      after.outbox = some (ofText ">A OK".toList) ∧
        ∀ outbox, (handled [66] (after.withOutbox outbox)).outbox = some (62 :: 66 :: text)) ∧
    ∀ text, (handled [66] c).outbox = some (62 :: 66 :: text) → text ≠ ofText " FAIL".toList →
      let after := handled (65 :: text) (handled [66] c)
      (∃ time, Request.decode (65 :: text) = .ok (.setClock time)) ∧
        after.outbox = some (ofText ">A OK".toList) ∧
        ∀ seconds, outcomeOf (SoftClock.now (after.clock.advance seconds)) =
          outcomeOf (SoftClock.now (c.clock.advance seconds)) := by
  refine ⟨fun text request hdecode => ?_, fun text hreply hne => ?_⟩
  · obtain ⟨time, htime, rfl, rfl⟩ := decode_setClock_iff.1 hdecode
    have hset := SoftClock.set_eq_ok htime c.clock
    have hnow := SoftClock.now_of_set hset
    rw [handled_setClock htime hset]
    refine ⟨rfl, fun outbox => ?_⟩
    rw [handled_readClock hnow]
    rfl
  · cases hnow : SoftClock.now c.clock with
    | error fault clock =>
        rw [handled_readClock_of_error hnow] at hreply
        obtain rfl := (List.cons.inj (List.cons.inj (Option.some.inj hreply)).2).2
        exact absurd rfl hne
    | ok time clock =>
        have htime := SoftClock.exists_of_now hnow
        obtain ⟨-, -, -, -, -, rfl⟩ := SoftClock.calendar_of_now hnow
        have hread := handled_readClock hnow
        rw [hread] at hreply ⊢
        obtain rfl := (List.cons.inj (List.cons.inj (Option.some.inj hreply)).2).2
        intro after
        have hset : after = _ := handled_setClock htime (SoftClock.set_of_now hnow)
        rw [hset]
        refine ⟨⟨time, decode_setClock_iff.2 ⟨time, htime, rfl, rfl⟩⟩, rfl, fun seconds => ?_⟩
        exact SoftClock.outcomeOf_now_mod c.clock seconds

/-- The leap day of the year 2000 was a Tuesday. A clock set to a Monday that day shows a Monday. -/
theorem clock_is_read_as_set_other_weekday :
    let text := ofText "MON 00-02-29 23:59:59".toList
    let start := boot SoftClock.unset (Vector.replicate 4 Bench.Pin.start) .standard
    let after := (handled (65 :: text) start).withOutbox none
    (handled (65 :: text) start).outbox = some (ofText ">A OK".toList) ∧
      (handled [66] after).outbox = some (62 :: 66 :: text) ∧
      ∃ time, Request.decode (65 :: text) = .ok (.setClock time) := by
  intro text start after
  have hdecode : Request.decode (65 :: text) = .ok (.setClock ⟨0, 1, 29, .monday, 23, 59, 59⟩) :=
    decode_setClock_iff.2 ⟨_, CivilTime.defect?_eq_none_iff.1 rfl, by decide +kernel, rfl⟩
  have hfail : text ≠ ofText " FAIL".toList := by decide +kernel
  obtain ⟨hok, hread⟩ := (clock_is_read_as_set start).1 text _ hdecode
  obtain ⟨hdecodes, -, -⟩ := (clock_is_read_as_set after).2 text (hread none) hfail
  exact ⟨hok, hread none, hdecodes⟩

end Controller

end Device

end TimeSwitch
