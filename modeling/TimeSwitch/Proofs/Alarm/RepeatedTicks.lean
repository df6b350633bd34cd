import TimeSwitch.Proofs.Alarm.Events
import TimeSwitch.Proofs.Calendar.Seconds

/-!
Ticks at one and the same time. What a tick does to an alarm it does at once, so that another tick
at the same time finds nothing left to do. There is one exception: the tick that ends an activation
does not look at the target, and if the target recurs just then, the next tick counts that
recurrence, even at the same time. After that nothing is left, either.
-/

namespace TimeSwitch.Alarm

/-- An alarm as it is made: with a schedule within its limits, or without a schedule. -/
inductive Made : Alarm → Prop
  | unset : Made unset
  | scheduled (period : Period) (target : CivilTime) (count minutes : Nat) :
      Made (ofSchedule (.clamped period target count minutes))

/-- A tick at `now` ends an activation, at a time when the target recurs. -/
structure EndsOnRecurrence (now : CivilTime) (a : Alarm) : Prop where
  active : a.active = true
  late : a.activeUntil < now.toUnix
  recurs : a.schedule.period.recurs a.schedule.target now = true

/-- Ticks at `now` have nothing left to do. -/
def Settled (now : CivilTime) (a : Alarm) : Prop :=
  a.tick now = (a.active, a)

variable {a : Alarm} {now : CivilTime}

/-! ### Alarms without a schedule -/

theorem settled_unset (now : CivilTime) : Settled now unset := rfl

theorem run_unset (events : List Event) : run events unset = unset := by
  induction events with
  | nil => rfl
  | cons event events ih => cases event <;> exact ih

/-! ### What settles an alarm -/

theorem settled_of_rest (henabled : a.enabled = true) (hrest : a.active = false)
    (hnot : a.isDue now = false) : Settled now a := by
  rw [Settled, tick, henabled, hrest, hnot]
  rfl

theorem settled_of_active (henabled : a.enabled = true) (hactive : a.active = true)
    (hin : now.toUnix ≤ a.activeUntil) : Settled now a := by
  rw [Settled, tick, henabled, hactive, if_neg (Nat.not_lt.2 hin)]
  rfl

/-- What is known of an alarm with a schedule at any time: a firing lasts a minute at least, so the
minute in which it fired is over before the activation is. -/
structure Lasting (a : Alarm) : Prop extends InCycle a where
  minutes_pos : 1 ≤ a.schedule.minutes
  minute_over : a.active = true → ∃ m, a.lastMinute = some m ∧ (m + 1) * 60 ≤ a.activeUntil

theorem lasting_ofSchedule (period : Period) (target : CivilTime) (count minutes : Nat) :
    (ofSchedule (.clamped period target count minutes)).Lasting where
  toInCycle := inCycle_ofSchedule period target count minutes
  minutes_pos := (Schedule.minutes_clamped_bounds period target count minutes).1
  minute_over := nofun

theorem le_until_of_fires (hminutes : 1 ≤ a.schedule.minutes) (hnow : now.Exists) :
    now.toUnix ≤ min (now.toUnix + a.schedule.minutes * 60) maxSeconds ∧
      (now.minuteNumber + 1) * 60 ≤ min (now.toUnix + a.schedule.minutes * 60) maxSeconds := by
  have hlast := (CivilTime.toUnix_bounds hnow).2
  simp only [CivilTime.minuteNumber, maxSeconds]
  omega

theorem lasting_act (h : a.Lasting) {event : Event} (hexists : ∀ t ∈ event.time?, t.Exists) :
    (event.act a).Lasting := by
  have hcycle := inCycle_act h.toInCycle event
  have hminutes : 1 ≤ (event.act a).schedule.minutes := by
    rw [schedule_act]
    exact h.minutes_pos
  refine ⟨hcycle, hminutes, ?_⟩
  cases event with
  | deactivate => exact nofun
  | tick now =>
      have hmoves := moves_tick h.toInCycle now
      rw [Event.act]
      generalize (a.tick now).2 = b at hmoves
      intro hactive
      cases hmoves with
      | expires => cases hactive
      | lasts => exact h.minute_over hactive
      | counts hrest | waits hrest => cases hrest.symm.trans hactive
      | fires => exact ⟨_, rfl, (le_until_of_fires h.minutes_pos (hexists now rfl)).2⟩

theorem lasting_run (h : a.Lasting) {events : List Event}
    (hexist : ∀ t ∈ times events, t.Exists) : (run events a).Lasting := by
  induction events generalizing a with
  | nil => exact h
  | cons event events ih =>
      rw [run_cons]
      refine ih (lasting_act h fun t ht => ?_) fun t ht => ?_
      · apply hexist
        exact List.mem_filterMap.2 ⟨event, List.mem_cons_self, ht⟩
      · apply hexist
        obtain ⟨later, hlater, htime⟩ := List.mem_filterMap.1 ht
        exact List.mem_filterMap.2 ⟨later, List.mem_cons_of_mem event hlater, htime⟩

/-! ### One tick and another -/

/-- An alarm that is active after a tick is not over at that time. -/
theorem not_endsOnRecurrence_tick (h : a.Lasting) (hnow : now.Exists) :
    ¬EndsOnRecurrence now (a.tick now).2 := by
  have hmoves := moves_tick h.toInCycle now
  generalize (a.tick now).2 = b at hmoves
  rintro ⟨hactive, hover, -⟩
  cases hmoves with
  | expires => cases hactive
  | lasts _ hin => exact absurd hover (Nat.not_lt.2 hin)
  | counts hrest | waits hrest => cases hrest.symm.trans hactive
  | fires => exact absurd hover (Nat.not_lt.2 (le_until_of_fires h.minutes_pos hnow).1)

/-- One tick settles an alarm, unless it ends an activation on a recurrence. -/
theorem settled_tick (h : a.Lasting) (hnow : now.Exists) (hends : ¬EndsOnRecurrence now a) :
    Settled now (a.tick now).2 := by
  have henabled : (a.tick now).2.enabled = true := (enabled_tick now a).trans h.enabled
  have hmoves := moves_tick h.toInCycle now
  generalize (a.tick now).2 = b at henabled hmoves
  cases hmoves with
  | expires hactive hover =>
      have hnot : ¬a.schedule.period.recurs a.schedule.target now = true :=
        fun hrecurs => hends ⟨hactive, hover, hrecurs⟩
      exact settled_of_rest henabled rfl (by simp [isDue, hnot])
  | lasts hactive hin => exact settled_of_active henabled hactive hin
  | counts hrest => exact settled_of_rest henabled hrest (by simp [isDue])
  | fires => exact settled_of_active henabled rfl (le_until_of_fires h.minutes_pos hnow).1
  | waits hrest hnot => exact settled_of_rest henabled hrest hnot

theorem tick_of_settled (hsettled : Settled now (a.tick now).2) :
    (a.tick now).2.tick now = a.tick now :=
  hsettled.trans (Prod.ext (said_tick now a).symm rfl)

theorem tick_of_endsOnRecurrence (h : a.InCycle) (hends : EndsOnRecurrence now a) :
    a.tick now = (false, a.deactivate) := by
  rw [tick, if_neg (by simp [h.enabled]), if_pos hends.active, if_pos hends.late, deactivate]

/-- The minute in which an activation ends is later than the one in which it began, so it has not
been counted. -/
theorem lastMinute_ne (h : a.Lasting) (hends : EndsOnRecurrence now a) :
    a.lastMinute ≠ some now.minuteNumber := by
  obtain ⟨m, hlast, hover⟩ := h.minute_over hends.active
  have hlate := hends.late
  rw [hlast]
  rintro ⟨⟩
  simp only [CivilTime.minuteNumber] at hover
  omega

theorem tick_deactivate (h : a.Lasting) (hends : EndsOnRecurrence now a) :
    a.deactivate.tick now = ((a.deactivate.countAt now).active, a.deactivate.countAt now) := by
  have hdue : a.deactivate.isDue now = true := by
    simp [isDue, deactivate, hends.recurs, lastMinute_ne h hends]
  rw [tick, hdue, enabled_deactivate, h.enabled]
  rfl

theorem lastMinute_countAt (now : CivilTime) (a : Alarm) :
    (a.countAt now).lastMinute = some now.minuteNumber := by
  unfold countAt
  dsimp only
  split <;> rfl

/-- The next tick at the time at which an activation ends on a recurrence makes a difference. -/
theorem tick_ne_of_endsOnRecurrence (h : a.Lasting) (hends : EndsOnRecurrence now a) :
    (a.tick now).2.tick now ≠ a.tick now := by
  rw [tick_of_endsOnRecurrence h.toInCycle hends, tick_deactivate h hends]
  intro hsame
  have hlast := congrArg (fun said => said.2.lastMinute) hsame
  simp only [lastMinute_countAt] at hlast
  exact lastMinute_ne h hends hlast.symm

/-- Of two ticks at the same time the second repeats the first, in what it says and in what it
leaves, unless the first one ends an activation at a time when the target recurs. In that case the
second one counts the recurrence. A third tick always repeats the second. This holds whatever has
happened to the alarm before, even if the clock went back. -/
theorem repeated_tick_settles (made : Alarm) (hmade : Made made) (events : List Event)
    (hexist : ∀ t ∈ times events, t.defect? = none) (now : CivilTime)
    (hnow : now.defect? = none) :
    let a := run events made
    let once := (a.tick now).2
    let twice := (once.tick now).2
    (once.tick now = a.tick now ↔ ¬EndsOnRecurrence now a) ∧
      (EndsOnRecurrence now a → a.tick now = (false, a.deactivate) ∧
        once.tick now = ((once.countAt now).active, once.countAt now)) ∧
      twice.tick now = once.tick now := by
  intro a once twice
  cases hmade with
  | unset =>
      have hsettled : a.tick now = (a.active, a) := by
        show Settled now (run events unset)
        rw [run_unset]
        exact settled_unset now
      have hnever : ¬EndsOnRecurrence now a := fun hends => by
        have hactive : (run events unset).active = true := hends.active
        rw [run_unset] at hactive
        cases hactive
      have honce : once = a := congrArg Prod.snd hsettled
      have htwice : twice = a := by
        show (once.tick now).2 = a
        rw [honce, hsettled]
      rw [htwice, honce]
      exact ⟨iff_of_true rfl hnever, fun hends => absurd hends hnever, rfl⟩
  | scheduled period target count minutes =>
      have hnow := CivilTime.defect?_eq_none_iff.1 hnow
      have h : a.Lasting := lasting_run (lasting_ofSchedule period target count minutes)
        fun t ht => CivilTime.defect?_eq_none_iff.1 (hexist t ht)
      have htime : ∀ t ∈ (Event.tick now).time?, t.Exists := by
        rintro t ⟨⟩
        exact hnow
      have honce : once.Lasting := lasting_act h htime
      refine ⟨⟨?_, ?_⟩, ?_, ?_⟩
      · exact fun hsame hends => tick_ne_of_endsOnRecurrence h hends hsame
      · exact fun hends => tick_of_settled (settled_tick h hnow hends)
      · intro hends
        have hended := tick_of_endsOnRecurrence h.toInCycle hends
        have hrest : once = a.deactivate := congrArg Prod.snd hended
        rw [hrest]
        exact ⟨hended, tick_deactivate h hends⟩
      · exact tick_of_settled
          (settled_tick honce hnow (not_endsOnRecurrence_tick h hnow))

/-- Every second recurrence fires, for an hour. The activation that began at 18:07:00 ends one
second into the next recurrence, which the second of three ticks then counts. -/
theorem repeated_tick_settles_ending :
    let time (hour minute second : Nat) : CivilTime := ⟨15, 7, 1, .saturday, hour, minute, second⟩
    let made := ofSchedule (.clamped .hour (time 0 7 0) 2 60)
    let events : List Event := [.tick (time 17 7 0), .tick (time 18 7 0), .tick (time 18 40 0)]
    let now := time 19 7 1
    let a := run events made
    let once := (a.tick now).2
    let twice := (once.tick now).2
    (∀ t ∈ times events, t.defect? = none) ∧ now.defect? = none ∧ EndsOnRecurrence now a ∧
      a.tick now = (false, a.deactivate) ∧ once.seen = 0 ∧ once.tick now ≠ a.tick now ∧
      twice.seen = 1 ∧ twice.tick now = once.tick now := by
  intro time made events now a once twice
  have hexist : ∀ t ∈ times events, t.defect? = none := by decide
  have hnow : now.defect? = none := by decide
  have hends : EndsOnRecurrence now a := ⟨by decide, by decide, by decide⟩
  obtain ⟨hsame, hended, hthird⟩ :=
    repeated_tick_settles made (.scheduled .hour (time 0 7 0) 2 60) events hexist now hnow
  exact ⟨hexist, hnow, hends, (hended hends).1, by decide, fun h => hsame.1 h hends, by decide,
    hthird⟩

/-- An alarm that fires at every recurrence, for an hour. At one second past the hour that it was on
one tick finds it over, and another one at the same time makes it fire again. -/
theorem repeated_tick_fires_again :
    let time (hour minute second : Nat) : CivilTime := ⟨15, 7, 1, .saturday, hour, minute, second⟩
    let events : List Event := [.tick (time 18 7 0)]
    let a := run events (ofSchedule (.clamped .hour (time 18 7 0) 1 60))
    let now := time 19 7 1
    (∀ t ∈ times events, t.defect? = none ∧ t.toUnix ≤ now.toUnix) ∧ now.defect? = none ∧
      (a.tick now).1 = false ∧ ((a.tick now).2.tick now).1 = true ∧
      ((a.tick now).2.tick now).2 ≠ (a.tick now).2 := by
  decide

end TimeSwitch.Alarm
