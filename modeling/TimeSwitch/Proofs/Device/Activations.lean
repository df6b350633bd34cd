import TimeSwitch.Proofs.Alarm.ActiveWindow
import TimeSwitch.Proofs.Device.ClockRoundTrip
import TimeSwitch.Proofs.Device.Timers

/-!
How long an alarm stays on. An alarm that fires is active until its duration has passed by the
clock: the first tick that reads a later time finds it off. As long as the clock is only moved on,
no more time than that can pass. Once the clock is set back, it takes longer to show a later time,
and all the while the alarm stays on.
-/

namespace TimeSwitch

namespace Device.Controller

open Sequence Wire

variable {κ π : Type} [Clock κ] [Pin π] {slot : AlarmSlot}

/-! ### Ticks that find an alarm off -/

/-- Some tick found that the slot holds no active alarm. -/
def FoundOff (slot : AlarmSlot) (events : List (Event κ π)) (c : Controller κ π) : Prop :=
  ∃ earlier later, events = earlier ++ .tick :: later ∧
    (run (earlier ++ [.tick]) c).alarms.isActive slot = false

theorem not_foundOff_nil (slot : AlarmSlot) (c : Controller κ π) : ¬FoundOff slot [] c := by
  rintro ⟨_ | _, later, heq, -⟩ <;> cases heq

theorem foundOff_cons {event : Event κ π} {events : List (Event κ π)} {c : Controller κ π} :
    FoundOff slot (event :: events) c ↔
      event = .tick ∧ (event.act c).alarms.isActive slot = false ∨
        FoundOff slot events (event.act c) := by
  constructor
  · rintro ⟨earlier, later, heq, hoff⟩
    cases earlier with
    | nil =>
        obtain ⟨rfl, rfl⟩ := List.cons.inj heq
        exact .inl ⟨rfl, hoff⟩
    | cons first earlier =>
        obtain ⟨rfl, rfl⟩ := List.cons.inj heq
        exact .inr ⟨earlier, later, rfl, hoff⟩
  · rintro (⟨rfl, hoff⟩ | ⟨earlier, later, rfl, hoff⟩)
    · exact ⟨[], events, rfl, hoff⟩
    · exact ⟨event :: earlier, later, rfl, hoff⟩

theorem foundOff_of_empty {events : List (Event κ π)}
    (harms : ∀ event ∈ events, ∀ schedule, ¬event.Arms slot schedule) {c : Controller κ π}
    (hempty : c.alarms.get? slot = none) : FoundOff slot events c ↔ .tick ∈ events := by
  constructor
  · rintro ⟨earlier, later, rfl, -⟩
    exact List.mem_append_right earlier List.mem_cons_self
  · intro hmem
    obtain ⟨earlier, later, rfl⟩ := List.append_of_mem hmem
    have hnot : ∀ event ∈ earlier ++ [.tick], ∀ schedule, ¬event.Arms slot schedule := by
      intro event hevent
      apply harms event
      rw [List.append_cons]
      exact List.mem_append_left later hevent
    refine ⟨earlier, later, rfl, ?_⟩
    rw [AlarmSlots.isActive]
    obtain ⟨-, hnone⟩ | ⟨-, hheld⟩ := alarm_run_of_not_armed hnot c
    · rw [hnone]
      rfl
    · rw [hheld, hempty]
      rfl

/-! ### A tick of the device -/

theorem tick_eq_ok (slot : AlarmSlot) {c after : Controller κ π} {report : TickReport}
    (h : tick c = .ok report after) :
    ∃ clock, Clock.now c.clock = .ok report.now clock ∧ after.timer slot =
      ⟨clock, (c.alarms.get? slot).map fun alarm => (alarm.tick report.now).2⟩ := by
  have htimer := timer_tick slot c
  rw [h, stateOf, Timer.tick] at htimer
  rw [tick_eq] at h
  simp only [timer] at htimer ⊢
  cases hnow : Clock.now c.clock with
  | error fault clock =>
      rw [hnow] at h
      cases h
  | ok now clock =>
      rw [hnow] at h htimer
      obtain ⟨rfl, -⟩ := EStateM.Result.ok.inj h
      exact ⟨clock, rfl, htimer⟩

theorem tick_of_time? {event : Event κ π} {c : Controller κ π} {now : CivilTime}
    (h : (event.outcome c).time? = some now) :
    event = .tick ∧ ∃ report after, tick c = .ok report after ∧ report.now = now := by
  cases event with
  | tick =>
      rw [Event.outcome] at h
      cases htick : tick c with
      | error fault after =>
          rw [htick] at h
          cases h
      | ok report after =>
          rw [htick] at h
          exact ⟨rfl, report, after, rfl, Option.some.inj h⟩
  | line | request | take | clock | pin => cases h

theorem readings_append (earlier later : List (Event κ π)) (c : Controller κ π) :
    readings (earlier ++ later) c = readings earlier c ++ readings later (run earlier c) := by
  induction earlier generalizing c with
  | nil => rfl
  | cons event earlier ih =>
      rw [List.cons_append, readings_cons, readings_cons, ih, List.append_assoc]
      rfl

theorem mem_readings_concat_tick {events : List (Event κ π)} {c after : Controller κ π}
    {report : TickReport} (h : tick (run events c) = .ok report after) :
    report.now ∈ readings (events ++ [.tick]) c := by
  have htime : ((Event.tick : Event κ π).outcome (run events c)).time? = some report.now := by
    rw [Event.outcome, h]
    rfl
  rw [readings_append, readings_cons, htime]
  exact List.mem_append_right _ List.mem_cons_self

/-! ### By the clock -/

/-- A tick reads a time after the second `last`, or comes after the slot is disarmed. -/
def RunsOut (slot : AlarmSlot) (last : Nat) (events : List (Event κ π)) (c : Controller κ π) :
    Prop :=
  (∃ time ∈ readings events c, last < time.toUnix) ∨
    ∃ disarming : Event κ π, disarming.Disarms slot ∧ [disarming, .tick].Sublist events

theorem runsOut_cons {last : Nat} {event : Event κ π} {events : List (Event κ π)}
    {c : Controller κ π} :
    RunsOut slot last (event :: events) c ↔
      (∃ time ∈ (event.outcome c).time?, last < time.toUnix) ∨
        (event.Disarms slot ∧ .tick ∈ events) ∨ RunsOut slot last events (event.act c) := by
  rw [RunsOut, RunsOut, readings_cons]
  constructor
  · rintro (⟨time, hmem, hlate⟩ | ⟨disarming, hdisarms, hsub⟩)
    · obtain hmem | hmem := List.mem_append.1 hmem
      · exact .inl ⟨time, Option.mem_toList.1 hmem, hlate⟩
      · exact .inr (.inr (.inl ⟨time, hmem, hlate⟩))
    · cases hsub with
      | cons _ hsub => exact .inr (.inr (.inr ⟨disarming, hdisarms, hsub⟩))
      | cons_cons _ hsub => exact .inr (.inl ⟨hdisarms, List.singleton_sublist.1 hsub⟩)
  · rintro (⟨time, hmem, hlate⟩ | ⟨hdisarms, hmem⟩ | ⟨time, hmem, hlate⟩ |
      ⟨disarming, hdisarms, hsub⟩)
    · exact .inl ⟨time, List.mem_append_left _ (Option.mem_toList.2 hmem), hlate⟩
    · exact .inr ⟨event, hdisarms, (List.singleton_sublist.2 hmem).cons_cons event⟩
    · exact .inl ⟨time, List.mem_append_right _ hmem, hlate⟩
    · exact .inr ⟨disarming, hdisarms, hsub.cons event⟩

theorem tick_mem_of_runsOut {last : Nat} {events : List (Event κ π)} {c : Controller κ π}
    (h : RunsOut slot last events c) : .tick ∈ events := by
  induction events generalizing c with
  | nil =>
      obtain ⟨time, hmem, -⟩ | ⟨disarming, -, hsub⟩ := h
      · cases hmem
      · cases hsub
  | cons event events ih =>
      obtain ⟨time, hmem, -⟩ | ⟨-, hmem⟩ | h := runsOut_cons.1 h
      · obtain ⟨rfl, -⟩ := tick_of_time? hmem
        exact List.mem_cons_self
      · exact List.mem_cons_of_mem _ hmem
      · exact List.mem_cons_of_mem _ (ih h)

theorem foundOff_iff_of_disarms {last : Nat} {event : Event κ π} {events : List (Event κ π)}
    {c : Controller κ π} (h : event.Disarms slot)
    (harms : ∀ event ∈ events, ∀ schedule, ¬event.Arms slot schedule)
    (hempty : (event.act c).alarms.get? slot = none) :
    FoundOff slot (event :: events) c ↔ RunsOut slot last (event :: events) c := by
  have hnot : event ≠ .tick := by
    rintro rfl
    exact h.elim nofun nofun
  rw [foundOff_cons, runsOut_cons, foundOff_of_empty harms hempty]
  constructor
  · rintro (⟨htick, -⟩ | hmem)
    · exact absurd htick hnot
    · exact .inr (.inl ⟨h, hmem⟩)
  · rintro (⟨time, hmem, -⟩ | ⟨-, hmem⟩ | hruns)
    · exact absurd (tick_of_time? hmem).1 hnot
    · exact .inr hmem
    · exact .inr (tick_mem_of_runsOut hruns)

theorem foundOff_iff_of_isActive {last : Nat} {event : Event κ π} {events : List (Event κ π)}
    {c : Controller κ π} (hon : (event.act c).alarms.isActive slot = true)
    (hdisarms : ¬event.Disarms slot)
    (hearly : ∀ time ∈ (event.outcome c).time?, time.toUnix ≤ last)
    (hlater : FoundOff slot events (event.act c) ↔ RunsOut slot last events (event.act c)) :
    FoundOff slot (event :: events) c ↔ RunsOut slot last (event :: events) c := by
  rw [foundOff_cons, runsOut_cons, hlater]
  constructor
  · rintro (⟨-, hoff⟩ | hruns)
    · cases hon.symm.trans hoff
    · exact .inr (.inr hruns)
  · rintro (⟨time, hmem, hlate⟩ | ⟨h, -⟩ | hruns)
    · exact absurd hlate (Nat.not_lt.2 (hearly time hmem))
    · exact absurd h hdisarms
    · exact .inr hruns

section SoftClock

variable {c : Controller SoftClock π} {start : CivilTime} {alarm : Alarm}

/-- An alarm that is on is found off by the first tick after its duration, or after it is
disarmed. -/
theorem foundOff_iff_of_activeSince {events : List (Event SoftClock π)}
    (harms : ∀ event ∈ events, ∀ schedule, ¬event.Arms slot schedule)
    (hheld : c.alarms.get? slot = some alarm) (halarm : alarm.ActiveSince start) :
    FoundOff slot events c ↔
      RunsOut slot (start.toUnix + alarm.schedule.minutes * 60) events c := by
  induction events generalizing c with
  | nil => exact iff_of_false (not_foundOff_nil slot c) fun h => nomatch tick_mem_of_runsOut h
  | cons event events ih =>
      rw [List.forall_mem_cons] at harms
      have heffect := effect_act slot event c
      generalize hafter : (event.act c).alarms.get? slot = held at heffect
      cases heffect with
      | armed h => exact absurd h (harms.1 _)
      | disarmed h => exact foundOff_iff_of_disarms h harms.2 hafter
      | moved _ hdisarms =>
          rw [hheld, Option.map_some] at hafter
          have hon (hsame : (event.act c).alarms.get? slot = some alarm) :
              (event.act c).alarms.isActive slot = true := by
            rw [AlarmSlots.isActive, hsame]
            exact halarm.active
          -- the alarm is moved by a tick that reads the clock, and by nothing else
          cases htime : (event.outcome c).time? with
          | none =>
              rw [htime] at hafter
              exact foundOff_iff_of_isActive (hon hafter) hdisarms (by simp [htime])
                (ih harms.2 hafter)
          | some now =>
              obtain ⟨rfl, report, after, htick, rfl⟩ := tick_of_time? htime
              obtain ⟨clock, hnow, -⟩ := tick_eq_ok slot htick
              have hticked : Alarm.ticked [report.now] alarm = (alarm.tick report.now).2 := rfl
              rw [htime, Option.toList_some, hticked,
                Alarm.tick_of_activeSince halarm (SoftClock.exists_of_now hnow)] at hafter
              split_ifs at hafter with hlate
              · refine iff_of_true (foundOff_cons.2 (.inl ⟨rfl, ?_⟩))
                  (runsOut_cons.2 (.inl ⟨report.now, htime, hlate⟩))
                rw [AlarmSlots.isActive, hafter]
                rfl
              · exact foundOff_iff_of_isActive (hon hafter) hdisarms (by simpa [htime] using hlate)
                  (ih harms.2 hafter)

/-! ### While time passes -/

/-- The clock is advanced by so many seconds in all, and not tampered with otherwise. -/
inductive Advances : List (Event SoftClock π) → Nat → Prop
  | none : Advances [] 0
  | clock {events : List (Event SoftClock π)} {total : Nat} (seconds : Nat)
      (later : Advances events total) :
      Advances (.clock (·.advance seconds) :: events) (seconds + total)
  | other {events : List (Event SoftClock π)} {total : Nat} {event : Event SoftClock π}
      (h : ∀ change, event ≠ .clock change) (later : Advances events total) :
      Advances (event :: events) total

/-- No request sets the clock to a time before the one that it has. -/
def NotSetBack : List (Event SoftClock π) → Controller SoftClock π → Prop
  | [], _ => True
  | event :: events, c =>
    (∀ time, event.request? = some (.setClock time) → time.Exists →
      ∀ seconds ∈ c.clock.seconds, seconds ≤ time.toUnix) ∧ NotSetBack events (event.act c)

theorem clock_perform (slot : AlarmSlot) (request : Request) (t : Timer SoftClock) :
    (t.perform slot request).clock = t.clock ∨ ∃ time, request = .setClock time ∧ time.Exists ∧
      (t.perform slot request).clock.seconds = some time.toUnix := by
  cases request with
  | setClock time =>
      rw [Timer.perform]
      cases hset : Clock.set time t.clock with
      | error fault clock => exact .inl (SoftClock.eq_of_set_eq_error hset)
      | ok _ clock =>
          have htime := SoftClock.exists_of_set hset
          obtain ⟨-, rfl⟩ := EStateM.Result.ok.inj (hset.symm.trans (SoftClock.set_eq_ok htime _))
          exact .inr ⟨time, rfl, htime, rfl⟩
  | readClock => exact .inl (SoftClock.stateOf_now t.clock)
  | setAlarm other | clearAlarm other =>
      rw [Timer.perform]
      split_ifs <;> exact .inl rfl
  | reset | setTrigger | clearTrigger | setDirection | readChannel => exact .inl rfl

theorem clock_tick (t : Timer SoftClock) : t.tick.clock = t.clock := by
  have hstate := SoftClock.stateOf_now t.clock
  rw [Timer.tick]
  cases hnow : Clock.now t.clock with
  | error _ clock | ok _ clock =>
      rw [hnow] at hstate
      exact hstate

/-- Only a request that sets the clock puts it to another time. -/
theorem clock_act {event : Event SoftClock π} (h : ∀ change, event ≠ .clock change)
    (c : Controller SoftClock π) :
    (event.act c).clock = c.clock ∨ ∃ time, event.request? = some (.setClock time) ∧
      time.Exists ∧ (event.act c).clock.seconds = some time.toUnix := by
  -- any slot will do, as none has a part in what becomes of the clock
  have hact : (event.act c).clock = (event.actOn 0 (c.timer 0)).clock :=
    congrArg Timer.clock (timer_act event c)
  rw [hact]
  cases event with
  | line tag body =>
      rw [Event.actOn, Event.request?]
      cases Request.decode (tag :: body) with
      | error fault => exact .inl rfl
      | ok r =>
          obtain hsame | ⟨time, rfl, hset⟩ := clock_perform 0 r (c.timer 0)
          · exact .inl hsame
          · exact .inr ⟨time, rfl, hset⟩
  | request r =>
      obtain hsame | ⟨time, rfl, hset⟩ := clock_perform 0 r (c.timer 0)
      · exact .inl hsame
      · exact .inr ⟨time, rfl, hset⟩
  | tick => exact .inl (clock_tick (c.timer 0))
  | clock change => exact absurd rfl (h change)
  | take | pin => exact .inl rfl

/-- A clock that is not set back shows at least what it was advanced by. -/
theorem le_seconds_run {events : List (Event SoftClock π)} {total seconds : Nat}
    (hadvances : Advances events total) (hback : NotSetBack events c)
    (hseconds : c.clock.seconds = some seconds) :
    ∃ later, (run events c).clock.seconds = some later ∧
      min (seconds + total) maxSeconds ≤ later := by
  induction hadvances generalizing c seconds with
  | none => exact ⟨seconds, hseconds, Nat.min_le_left _ _⟩
  | @clock events total n _ ih =>
      -- a clock stops at the largest number it can count to, so the bound does as well
      have hafter : (Event.act (.clock (·.advance n)) c).clock.seconds =
          some (min (seconds + n) maxSeconds) := by
        rw [Event.act]
        dsimp only
        rw [SoftClock.advance, hseconds]
        rfl
      obtain ⟨later, hrun, hle⟩ := ih hback.2 hafter
      exact ⟨later, hrun, by omega⟩
  | @other events total event hclock _ ih =>
      obtain ⟨reached, hafter, hreached⟩ : ∃ reached,
          (event.act c).clock.seconds = some reached ∧ seconds ≤ reached := by
        obtain hsame | ⟨time, hrequest, htime, hset⟩ := clock_act hclock c
        · exact ⟨seconds, hsame ▸ hseconds, Nat.le_refl _⟩
        · exact ⟨time.toUnix, hset, hback.1 time hrequest htime seconds hseconds⟩
      obtain ⟨later, hrun, hle⟩ := ih hback.2 hafter
      exact ⟨later, hrun, by omega⟩

/-! ### Firings -/

/-- The tick of a device at which the alarm in a slot fires; it leaves the device `fired`. -/
structure Fires (slot : AlarmSlot) (alarm : Alarm) (c : Controller SoftClock π)
    (report : TickReport) (fired : Controller SoftClock π) : Prop where
  ticks : tick c = .ok report fired
  wasOff : c.alarms.isActive slot = false
  held : fired.alarms.get? slot = some alarm
  active : alarm.active = true

theorem Fires.activeSince {report : TickReport} {fired : Controller SoftClock π}
    (h : Fires slot alarm c report fired) : alarm.ActiveSince report.now := by
  obtain ⟨clock, -, htimer⟩ := tick_eq_ok slot h.ticks
  have hticked := congrArg Timer.alarm htimer
  dsimp only [timer] at hticked
  rw [h.held] at hticked
  have hwasOff := h.wasOff
  rw [AlarmSlots.isActive] at hwasOff
  cases hbefore : c.alarms.get? slot with
  | none =>
      rw [hbefore] at hticked
      cases hticked
  | some before =>
      rw [hbefore, Option.map_some] at hticked
      rw [hbefore, Option.any_some] at hwasOff
      obtain rfl := Option.some.inj hticked
      exact Alarm.activeSince_tick hwasOff h.active

theorem Fires.seconds {report : TickReport} {fired : Controller SoftClock π}
    (h : Fires slot alarm c report fired) : fired.clock.seconds = some report.now.toUnix := by
  obtain ⟨clock, hnow, htimer⟩ := tick_eq_ok slot h.ticks
  have hclock : fired.clock = clock := congrArg Timer.clock htimer
  obtain ⟨-, -, -, -, -, rfl⟩ := SoftClock.calendar_of_now hnow
  rw [hclock]
  exact SoftClock.seconds_of_now hnow

/-- An alarm that fires, and is not armed again, is found off by the first tick past its duration
by the clock, and otherwise only when it is disarmed. If the clock is never set back, this is
so at every tick, as long as the clock can be read, once it was advanced by more than the
duration. -/
theorem activation_ends_by_the_clock {report : TickReport} {fired : Controller SoftClock π}
    (h : Fires slot alarm c report fired) {events : List (Event SoftClock π)}
    (harms : ∀ event ∈ events, ∀ schedule, ¬event.Arms slot schedule) :
    (FoundOff slot events fired ↔
      RunsOut slot (report.now.toUnix + alarm.schedule.minutes * 60) events fired) ∧
    ∀ total, Advances events total → NotSetBack events fired →
      alarm.schedule.minutes * 60 < total →
      ∀ later after, tick (run events fired) = .ok later after →
        FoundOff slot (events ++ [.tick]) fired := by
  refine ⟨foundOff_iff_of_activeSince harms h.held h.activeSince, ?_⟩
  intro total hadvances hback htotal later after htick
  have harms' : ∀ event ∈ events ++ [.tick], ∀ schedule, ¬event.Arms slot schedule :=
    List.forall_mem_append.2 ⟨harms, List.forall_mem_singleton.2 fun _ => nofun⟩
  rw [foundOff_iff_of_activeSince harms' h.held h.activeSince]
  refine .inl ⟨later.now, mem_readings_concat_tick htick, ?_⟩
  obtain ⟨seconds, hseconds, hle⟩ := le_seconds_run hadvances hback h.seconds
  obtain ⟨clock, hnow, -⟩ := tick_eq_ok slot htick
  obtain rfl := Option.some.inj (hseconds.symm.trans (SoftClock.seconds_of_now hnow))
  have hlast : later.now.toUnix ≤ 4102444799 :=
    (CivilTime.toUnix_bounds (SoftClock.exists_of_now hnow)).2
  rw [maxSeconds] at hle
  omega

end SoftClock

/-! ### An alarm of one minute -/

/-- A device at seven past six, with an hourly alarm of one minute that a line has armed. -/
def atSeven : Controller SoftClock Bench.Pin :=
  run [.line 67 (Octets.ofText "00 01H 07 D1".toList)]
    (boot ⟨some 1438452420, 0⟩ (Vector.replicate 4 Bench.Pin.start) .standard)

/-- The alarm once it has fired there. -/
def minuteAlarm : Alarm :=
  ⟨⟨.hour, { CivilTime.base with minute := 7 }, 1, 1⟩, true, 0, true, 1438452480, some 23974207,
    fun _ => rfl⟩

theorem fires_atSeven : ∃ report, Fires 0 minuteAlarm atSeven report (stateOf (tick atSeven)) := by
  have htime : ((Event.tick : Event SoftClock Bench.Pin).outcome atSeven).time? =
      some ⟨15, 7, 1, .saturday, 18, 7, 0⟩ := by
    decide +kernel
  obtain ⟨-, report, after, htick, -⟩ := tick_of_time? htime
  refine ⟨report, ?_, by decide +kernel, by decide +kernel, rfl⟩
  rw [htick]
  rfl

/-- A clock that is set ahead, and advanced by sixty-one seconds in all. -/
theorem activation_ends_by_the_clock_set_ahead :
    let events : List (Event SoftClock Bench.Pin) :=
      [.clock (·.advance 30), .request (.setClock ⟨15, 7, 1, .saturday, 18, 8, 0⟩),
        .clock (·.advance 31)]
    (∃ report, Fires 0 minuteAlarm atSeven report (stateOf (tick atSeven))) ∧
      (∀ event ∈ events, ∀ schedule, ¬event.Arms 0 schedule) ∧ Advances events 61 ∧
      NotSetBack events (stateOf (tick atSeven)) ∧
      FoundOff 0 (events ++ [.tick]) (stateOf (tick atSeven)) := by
  intro events
  have harms : ∀ event ∈ events, ∀ schedule, ¬event.Arms 0 schedule := by
    simp [events, Event.Arms, Event.request?]
  have hadvances : Advances events 61 := by
    refine .clock 30 (.other ?_ (.clock 31 .none))
    rintro _ ⟨⟩
  have hback : NotSetBack events (stateOf (tick atSeven)) := by
    have hbefore : (Event.act (.clock (·.advance 30)) (stateOf (tick atSeven))).clock.seconds =
        some 1438452450 := by
      decide +kernel
    refine ⟨?_, ?_, ?_, trivial⟩
    · rintro _ ⟨⟩
    · rintro _ ⟨⟩ _ seconds hseconds
      obtain rfl := Option.some.inj (hbefore.symm.trans hseconds)
      decide
    · rintro _ ⟨⟩
  have htime : ((Event.tick : Event SoftClock Bench.Pin).outcome
      (run events (stateOf (tick atSeven)))).time? = some ⟨15, 7, 1, .saturday, 18, 8, 31⟩ := by
    decide +kernel
  obtain ⟨-, later, after, htick, -⟩ := tick_of_time? htime
  obtain ⟨report, hfires⟩ := fires_atSeven
  exact ⟨⟨report, hfires⟩, harms, hadvances, hback,
    (activation_ends_by_the_clock hfires harms).2 61 hadvances hback (by decide) later after htick⟩

/-- The clock is set back by a day. A minute and a second later, the alarm is still on. -/
theorem activation_outlasts_clock_set_back :
    let events : List (Event SoftClock Bench.Pin) :=
      [.line 65 (Octets.ofText "FRI 15-07-31 18:07:00".toList), .clock (·.advance 61)]
    let fired := stateOf (tick atSeven)
    (∃ report, Fires 0 minuteAlarm atSeven report fired) ∧
      (∀ event ∈ events, ∀ schedule, ¬event.Arms 0 schedule) ∧
      Advances events 61 ∧ minuteAlarm.schedule.minutes * 60 < 61 ∧
      (∃ later after, tick (run events fired) = .ok later after) ∧
      ¬FoundOff 0 (events ++ [.tick]) fired := by
  intro events fired
  have harms : ∀ event ∈ events, ∀ schedule, ¬event.Arms 0 schedule := by
    have hline : (.line 65 (Octets.ofText "FRI 15-07-31 18:07:00".toList) :
        Event SoftClock Bench.Pin).request? = some (.setClock ⟨15, 6, 31, .friday, 18, 7, 0⟩) := rfl
    refine List.forall_mem_cons.2 ⟨fun schedule h => ?_, List.forall_mem_singleton.2 fun _ => nofun⟩
    cases hline.symm.trans h
  have htime : ((Event.tick : Event SoftClock Bench.Pin).outcome (run events fired)).time? =
      some ⟨15, 6, 31, .friday, 18, 8, 1⟩ := by
    decide +kernel
  have hon : (Event.act .tick (run events fired)).alarms.isActive 0 = true := by decide +kernel
  obtain ⟨-, later, after, htick, -⟩ := tick_of_time? htime
  refine ⟨fires_atSeven, harms, .other ?_ (.clock 61 .none), by decide, ⟨later, after, htick⟩, ?_⟩
  · rintro _ ⟨⟩
  intro hfound
  obtain ⟨h, -⟩ | hfound := foundOff_cons.1 hfound
  · cases h
  obtain ⟨h, -⟩ | hfound := foundOff_cons.1 hfound
  · cases h
  obtain ⟨-, hoff⟩ | hfound := foundOff_cons.1 hfound
  · cases hon.symm.trans hoff
  · exact not_foundOff_nil _ _ hfound

end Device.Controller

end TimeSwitch
