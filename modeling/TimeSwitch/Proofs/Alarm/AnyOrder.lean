import TimeSwitch.Proofs.Alarm.Recurrences
import TimeSwitch.Proofs.Alarm.RepeatedTicks

/-!
What an alarm keeps whatever happens to it, even if the clock goes back. Its schedule is not
touched, its count stays below the one that the schedule asks for, and while it is active the count
is empty. Only a firing says how long an activation lasts.
-/

namespace TimeSwitch

/-- The count and the duration are what an alarm can be asked for. -/
structure Schedule.WithinLimits (s : Schedule) : Prop where
  count_pos : 1 ≤ s.count
  count_le : s.count ≤ maxCount
  minutes_pos : 1 ≤ s.minutes
  minutes_le : s.minutes ≤ maxMinutes

theorem Schedule.withinLimits_clamped (period : Period) (target : CivilTime)
    (count minutes : Nat) : (clamped period target count minutes).WithinLimits := by
  obtain ⟨hcount, hcount'⟩ := count_clamped_bounds period target count minutes
  obtain ⟨hminutes, hminutes'⟩ := minutes_clamped_bounds period target count minutes
  exact ⟨hcount, hcount', hminutes, hminutes'⟩

namespace Alarm

variable {a : Alarm}

/-! ### What no event changes -/

@[simp] theorem enabled_act (event : Event) (a : Alarm) : (event.act a).enabled = a.enabled := by
  cases event with
  | tick now => exact enabled_tick now a
  | deactivate => rfl

@[simp] theorem schedule_run (events : List Event) (a : Alarm) :
    (run events a).schedule = a.schedule := by
  induction events generalizing a with
  | nil => rfl
  | cons event events ih => rw [run_cons, ih, schedule_act]

@[simp] theorem enabled_run (events : List Event) (a : Alarm) :
    (run events a).enabled = a.enabled := by
  induction events generalizing a with
  | nil => rfl
  | cons event events ih => rw [run_cons, ih, enabled_act]

theorem beq_eq_decide (a b : Alarm) : (a == b) = decide (a.schedule = b.schedule) := rfl

/-- Alarms are the same, or are not, whatever happens to either. -/
theorem beq_run (events later : List Event) (a b : Alarm) :
    (run events a == run later b) = (a == b) := by
  rw [beq_eq_decide, beq_eq_decide, schedule_run, schedule_run]

/-! ### What every event keeps -/

/-- An alarm with a schedule within its limits, which keeps to its schedule. -/
structure Sound (a : Alarm) : Prop extends InCycle a where
  within : a.schedule.WithinLimits
  /-- A firing uses up the count, and nothing is counted while the alarm is active. -/
  seen_eq_zero : a.active = true → a.seen = 0

theorem sound_ofSchedule (period : Period) (target : CivilTime) (count minutes : Nat) :
    (ofSchedule (.clamped period target count minutes)).Sound where
  toInCycle := inCycle_ofSchedule period target count minutes
  within := Schedule.withinLimits_clamped period target count minutes
  seen_eq_zero := nofun

theorem seen_tick_eq_zero (h : a.Sound) {now : CivilTime} (hactive : (a.tick now).2.active = true) :
    (a.tick now).2.seen = 0 := by
  have hmoves := moves_tick h.toInCycle now
  generalize (a.tick now).2 = b at hmoves hactive
  cases hmoves with
  | expires => cases hactive
  | lasts => exact h.seen_eq_zero hactive
  | counts hrest | waits hrest => cases hrest.symm.trans hactive
  | fires => rfl

theorem sound_act (h : a.Sound) (event : Event) : (event.act a).Sound := by
  constructor
  · exact inCycle_act h.toInCycle event
  · rw [schedule_act]
    exact h.within
  · cases event with
    | tick now => exact seen_tick_eq_zero h
    | deactivate => exact nofun

theorem sound_run (h : a.Sound) (events : List Event) : (run events a).Sound := by
  induction events generalizing a with
  | nil => exact h
  | cons event events ih => exact ih (sound_act h event)

theorem phase_of_active (h : a.active = true) : a.phase = .triggered := if_pos h

/-- The end of an activation stays what it is, unless the alarm fires. -/
theorem activeUntil_act (h : a.InCycle) {event : Event} (hfires : event.fires a = false) :
    (event.act a).activeUntil = a.activeUntil := by
  cases event with
  | deactivate => rfl
  | tick now =>
      have hmoves := moves_tick h now
      rw [Event.fires] at hfires
      rw [Event.act] at hfires ⊢
      generalize (a.tick now).2 = b at hmoves hfires
      cases hmoves with
      | expires | lasts | counts | waits => rfl
      | fires hrest => simp [hrest] at hfires

theorem activeUntil_run (h : a.InCycle) {events : List Event} (hnone : firings events a = 0) :
    (run events a).activeUntil = a.activeUntil := by
  induction events generalizing a with
  | nil => rfl
  | cons event events ih =>
      rw [firings, Nat.add_eq_zero_iff, Bool.toNat_eq_zero] at hnone
      rw [run_cons, ih (inCycle_act h event) hnone.2, activeUntil_act h hnone.1]

/-- An alarm with a schedule within its limits, ticked and deactivated at any times in any order. It
stays within its limits, and is the same as just those alarms that it was the same as before; each
tick says whether the alarm is active after it, and the end of an activation changes only at a tick
that fires. An alarm without a schedule is not changed at all and never active. -/
theorem sound_in_any_order (period : Period) (target : CivilTime) (count minutes : Nat)
    (events : List Event) :
    let made := ofSchedule (.clamped period target count minutes)
    let a := run events made
    a.Sound ∧ (a.active = true → a.phase = .triggered) ∧
      (a.schedule = .clamped period target count minutes ∧ a.enabled = true) ∧
      (∀ other later, (a == run later other) = (made == other) ∧
        (run later other == a) = (other == made)) ∧
      (∀ event : Event, (event.act a).activeUntil ≠ a.activeUntil →
        ∃ now, event = .tick now ∧ event.fires a = true) ∧
      (∀ now, (a.tick now).1 = (a.tick now).2.active) ∧
      run events unset = unset ∧ ∀ now, unset.tick now = (false, unset) := by
  intro made a
  have hsound : a.Sound := sound_run (sound_ofSchedule period target count minutes) events
  refine ⟨hsound, phase_of_active, ⟨schedule_run events made, enabled_run events made⟩, ?_, ?_,
    fun now => said_tick now a, run_unset events, settled_unset⟩
  · intro other later
    exact ⟨beq_run events later made other, beq_run later events other made⟩
  · intro event hchanged
    have hfires : event.fires a = true := by
      by_contra hpassed
      exact hchanged (activeUntil_act hsound.toInCycle (Bool.eq_false_of_not_eq_true hpassed))
    cases event with
    | tick now => exact ⟨now, rfl, hfires⟩
    | deactivate =>
        rw [fires_deactivate] at hfires
        cases hfires

end Alarm

end TimeSwitch
