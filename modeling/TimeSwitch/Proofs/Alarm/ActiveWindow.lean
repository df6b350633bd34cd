import TimeSwitch.Proofs.Alarm.AnyOrder
import TimeSwitch.Proofs.Alarm.EverySecond

/-!
From one firing to the next. An alarm that fires is active until its duration has passed, and the
first tick after that ends the activation and does nothing else. A firing empties the count, so the
alarm fires again only when it has counted as many minutes as fill it, and these are all later than
the minute in which it fired.
-/

namespace TimeSwitch.Alarm

open CivilTime

variable {a : Alarm} {start now : CivilTime}

/-! ### Activations -/

/-- The alarm fired at `start` and is still active. -/
structure ActiveSince (start : CivilTime) (a : Alarm) : Prop where
  enabled : a.enabled = true
  active : a.active = true
  until_eq : a.activeUntil = min (start.toUnix + a.schedule.minutes * 60) maxSeconds

theorem activeSince_countAt (hrest : a.active = false) (henabled : a.enabled = true)
    (hactive : (a.countAt now).active = true) : (a.countAt now).ActiveSince now := by
  rw [countAt] at hactive ⊢
  dsimp only at hactive ⊢
  split_ifs at hactive ⊢ with hmore
  · cases hrest.symm.trans hactive
  · exact ⟨henabled, henabled, rfl⟩

/-- An alarm becomes active at a tick only by firing at it. -/
theorem activeSince_tick (hrest : a.active = false) (hactive : (a.tick now).2.active = true) :
    (a.tick now).2.ActiveSince now := by
  rw [tick] at hactive ⊢
  split_ifs at hactive ⊢ with hoff hon hover hdue
  · cases hrest.symm.trans hactive
  · cases hactive
  · cases hrest.symm.trans hon
  · exact activeSince_countAt hrest (by simpa using hoff) hactive
  · cases hrest.symm.trans hactive

/-- The last second of an activation is far from the largest number of a clock register. -/
theorem activeUntil_of_activeSince (h : ActiveSince start a) (hwithin : a.schedule.WithinLimits)
    (hstart : start.Exists) : a.activeUntil = start.toUnix + 60 * a.schedule.minutes := by
  have hlast := (toUnix_bounds hstart).2
  have hminutes : a.schedule.minutes ≤ 9999 := hwithin.minutes_le
  rw [h.until_eq, maxSeconds]
  omega

theorem tick_of_active (henabled : a.enabled = true) (hactive : a.active = true)
    (now : CivilTime) : a.tick now =
      if now.toUnix ≤ a.activeUntil then (true, a) else (false, a.deactivate) := by
  rw [tick, henabled, hactive, Bool.not_true, if_neg Bool.false_ne_true, if_pos rfl, ← ite_not]
  simp only [Nat.not_lt]

theorem tick_of_activeSince (h : ActiveSince start a) (hnow : now.Exists) :
    (a.tick now).2 = if start.toUnix + a.schedule.minutes * 60 < now.toUnix then
      a.deactivate else a := by
  have hlast : now.toUnix ≤ 4102444799 := (toUnix_bounds hnow).2
  have hin : now.toUnix ≤ a.activeUntil ↔
      ¬start.toUnix + a.schedule.minutes * 60 < now.toUnix := by
    rw [h.until_eq, maxSeconds]
    omega
  rw [tick_of_active h.enabled h.active]
  simp only [hin]
  split_ifs <;> rfl

/-- Ticks within an activation do nothing. -/
theorem run_of_active (henabled : a.enabled = true) (hactive : a.active = true)
    {ticks : List CivilTime} (hin : ∀ v ∈ ticks, v.toUnix ≤ a.activeUntil) :
    run (ticks.map Event.tick) a = a := by
  induction ticks with
  | nil => rfl
  | cons v ticks ih =>
      obtain ⟨hv, hin⟩ := List.forall_mem_cons.1 hin
      have htick : (Event.tick v).act a = a := by
        rw [Event.act, tick_of_active henabled hactive, if_pos hv]
      rw [List.map_cons, run_cons, htick, ih hin]

/-! ### Ticks only -/

/-- At `now` the alarm is active just if the last second of its latest activation is not past. -/
def InStep (now : CivilTime) (a : Alarm) : Prop :=
  a.active = true ↔ now.toUnix ≤ a.activeUntil

theorem inStep_tick (h : a.Sound) (hstep : InStep start a) (hle : start.toUnix ≤ now.toUnix)
    (hnow : now.Exists) : InStep now (a.tick now).2 := by
  have hmoves := moves_tick h.toInCycle now
  generalize (a.tick now).2 = b at hmoves
  rw [InStep] at hstep ⊢
  -- an alarm at rest stays out of its window, which time only moves away from
  have hpast (hrest : a.active = false) : ¬now.toUnix ≤ a.activeUntil := by
    rw [hrest] at hstep
    intro hin
    exact absurd (hstep.2 (Nat.le_trans hle hin)) Bool.false_ne_true
  cases hmoves with
  | expires hactive hover => exact iff_of_false Bool.false_ne_true (Nat.not_le.2 hover)
  | lasts hactive hin => exact iff_of_true hactive hin
  | counts hrest | waits hrest => exact iff_of_false (by simp [hrest]) (hpast hrest)
  | fires => exact iff_of_true rfl (le_until_of_fires h.within.minutes_pos hnow).1

theorem inStep_run (h : a.Sound) (hstep : InStep start a) {ticks : List CivilTime}
    (hexist : ∀ v ∈ ticks, v.Exists) (hnow : now.Exists)
    (hordered : (start :: (ticks ++ [now])).Pairwise fun u v => u.toUnix ≤ v.toUnix) :
    InStep now ((run (ticks.map Event.tick) a).tick now).2 := by
  induction ticks generalizing a start with
  | nil => exact inStep_tick h hstep (List.rel_of_pairwise_cons hordered (by simp)) hnow
  | cons v ticks ih =>
      obtain ⟨hv, hexist⟩ := List.forall_mem_cons.1 hexist
      have hle := List.rel_of_pairwise_cons hordered List.mem_cons_self
      exact ih (sound_act h (.tick v)) (inStep_tick h hstep hle hv) hexist
        (List.pairwise_cons.1 hordered).2

/-! ### Firings -/

theorem activeSince_of_fires (hfires : Event.fires (.tick now) a = true) :
    (a.tick now).2.ActiveSince now := by
  obtain ⟨hrest, hactive⟩ := Bool.and_eq_true_iff.1 hfires
  exact activeSince_tick (by simpa using hrest) hactive

/-- The minute in which an alarm fires is the last one that it has counted. -/
theorem lastMinute_of_fires (h : a.InCycle) (hfires : Event.fires (.tick now) a = true) :
    (a.tick now).2.lastMinute = some now.minuteNumber := by
  cases counting_tick h now with
  | counted _ _ _ hlast => exact hlast
  | passed hcounts => simp [countsAt, hfires] at hcounts

/-- With nothing counted before, each full count of recurrences is one firing. -/
theorem firings_eq_div (h : a.Sound) (hseen : a.seen = 0) (events : List Event) :
    firings events a = (ticksThat countsAt events a).length / a.schedule.count := by
  have hsum := count_firings_add_seen h.toInCycle events
  have hlt := (sound_run h events).seen_lt
  rw [schedule_run] at hlt
  rw [hseen, Nat.zero_add, Nat.add_comm] at hsum
  rw [← hsum, Nat.add_mul_div_left _ _ h.within.count_pos, Nat.div_eq_of_lt hlt, Nat.zero_add]

/-- The alarm has fired at `start`, and nothing has happened to it since. -/
structure JustFired (start : CivilTime) (a : Alarm) : Prop
    extends Sound a, ActiveSince start a where
  start_exists : start.Exists
  lastMinute_eq : a.lastMinute = some start.minuteNumber

theorem justFired_tick (h : a.Sound) (hnow : now.Exists)
    (hfires : Event.fires (.tick now) a = true) : (a.tick now).2.JustFired now where
  toSound := sound_act h (.tick now)
  active := (activeSince_of_fires hfires).active
  until_eq := (activeSince_of_fires hfires).until_eq
  start_exists := hnow
  lastMinute_eq := lastMinute_of_fires h.toInCycle hfires

namespace JustFired

theorem activeUntil_eq (h : JustFired start a) :
    a.activeUntil = start.toUnix + 60 * a.schedule.minutes :=
  activeUntil_of_activeSince h.toActiveSince h.within h.start_exists

/-- What ticks say of the activation, as long as the alarm is not deactivated. -/
theorem says_window (h : JustFired start a) {ticks : List CivilTime} {u : CivilTime}
    (hticks : ∀ v ∈ ticks, v.Exists) (hu : u.Exists)
    (hordered : (start :: (ticks ++ [u])).Pairwise fun v w => v.toUnix ≤ w.toUnix) :
    let before := run (ticks.map .tick) a
    ((before.tick u).1 = true ↔ u.toUnix ≤ (before.tick u).2.activeUntil) ∧
      (firings (ticks.map .tick ++ [.tick u]) a = 0 →
        (before.tick u).2.activeUntil = a.activeUntil) ∧
      ((∀ v ∈ ticks, v.toUnix ≤ a.activeUntil) → before.tick u =
        if u.toUnix ≤ a.activeUntil then (true, a) else (false, a.deactivate)) := by
  intro before
  refine ⟨?_, fun hnone => ?_, fun hin => ?_⟩
  · have hstep : InStep start a := by
      have hend := h.activeUntil_eq
      exact iff_of_true h.active (by omega)
    rw [said_tick]
    exact inStep_run h.toSound hstep hticks hu hordered
  · have hsame := activeUntil_run h.toInCycle hnone
    rwa [run_append] at hsame
  · have hsame : before = a := run_of_active h.enabled h.active hin
    rw [hsame]
    exact tick_of_active h.enabled h.active u

/-- What is counted from then on. -/
theorem counted_later (h : JustFired start a) {events : List Event}
    (hordered : (start :: times events).Pairwise fun u v => u.toUnix ≤ v.toUnix) :
    (∀ u ∈ ticksThat countsAt events a, a.schedule.period.recurs a.schedule.target u = true ∧
      start.minuteNumber < u.minuteNumber) ∧
      (ticksThat countsAt events a).Pairwise fun u v => u.minuteNumber < v.minuteNumber := by
  obtain ⟨hafter, hlater⟩ := List.pairwise_cons.1 hordered
  have hlast : ∀ m ∈ a.lastMinute, ∀ u ∈ times events, m ≤ u.minuteNumber := by
    intro m hm u hu
    obtain rfl := Option.some.inj (h.lastMinute_eq.symm.trans hm)
    exact minuteNumber_le_of_toUnix_le (hafter u hu)
  obtain ⟨hforward, hincreasing⟩ := counted_minutes_forward h.toInCycle hlast
    (hlater.imp minuteNumber_le_of_toUnix_le)
  refine ⟨fun u hu => ⟨?_, hforward _ h.lastMinute_eq u hu⟩, hincreasing⟩
  exact recurs_of_mem_ticksThat (counted_subset h.toInCycle events hu)

end JustFired

/-- Among ticks at times that exist and do not go back, a tick at `t` makes the alarm fire. The
activation lasts for the duration, to the second. As long as the alarm is not deactivated, each tick
says whether the time is at most the last second of the activation, which stays the same until the
alarm fires again; up to the first tick past it nothing changes, and that tick changes only that the
alarm is active no more. However the activation ends, from then on the alarm fires once for each
full count of minutes, all of them different minutes in which the target recurs and later than that
of `t`. -/
theorem fired_alarm_lasts_then_counts_anew (period : Period) (target : CivilTime)
    (count minutes : Nat) (earlier later : List Event) (t : CivilTime)
    (hexist : ∀ u ∈ times (earlier ++ .tick t :: later), u.defect? = none)
    (hordered : (times (earlier ++ .tick t :: later)).Pairwise fun u v => u.toUnix ≤ v.toUnix)
    (hfires : Event.fires (.tick t)
      (run earlier (ofSchedule (.clamped period target count minutes))) = true) :
    let fired := run (earlier ++ [.tick t]) (ofSchedule (.clamped period target count minutes))
    let counted := ticksThat countsAt later fired
    fired.activeUntil = t.toUnix + 60 * fired.schedule.minutes ∧
      (∀ (ticks : List CivilTime) u rest, later = ticks.map .tick ++ .tick u :: rest →
        let before := run (ticks.map .tick) fired
        ((before.tick u).1 = true ↔ u.toUnix ≤ (before.tick u).2.activeUntil) ∧
          (firings (ticks.map .tick ++ [.tick u]) fired = 0 →
            (before.tick u).2.activeUntil = fired.activeUntil) ∧
          ((∀ v ∈ ticks, v.toUnix ≤ fired.activeUntil) → before.tick u =
            if u.toUnix ≤ fired.activeUntil then (true, fired)
            else (false, fired.deactivate))) ∧
      firings later fired = counted.length / fired.schedule.count ∧
      (∀ u ∈ counted, period.recurs target u = true ∧ t.minuteNumber < u.minuteNumber) ∧
      counted.Pairwise fun u v => u.minuteNumber < v.minuteNumber := by
  intro fired counted
  have hbefore := sound_run (sound_ofSchedule period target count minutes) earlier
  have hschedule : fired.schedule = .clamped period target count minutes := schedule_run _ _
  -- of the times, only those from the firing on matter
  rw [times_append, times_tick] at hexist hordered
  obtain ⟨ht, hexist⟩ := List.forall_mem_cons.1 (List.forall_mem_append.1 hexist).2
  replace hordered := (List.pairwise_append.1 hordered).2.1
  have hfired : fired.JustFired t := by
    rw [show fired = _ from run_append earlier [.tick t] _]
    exact justFired_tick hbefore (defect?_eq_none_iff.1 ht) hfires
  obtain ⟨hcounted, hincreasing⟩ := hfired.counted_later hordered
  rw [hschedule] at hcounted
  have hfirings := firings_eq_div hfired.toSound (hfired.seen_eq_zero hfired.active) later
  refine ⟨hfired.activeUntil_eq, ?_, hfirings, hcounted, hincreasing⟩
  rintro ticks u rest rfl
  rw [times_append, times_map_tick, times_tick] at hexist hordered
  rw [← List.cons_append, List.append_cons] at hordered
  obtain ⟨hticks, hexist⟩ := List.forall_mem_append.1 hexist
  have hu := (List.forall_mem_cons.1 hexist).1
  exact hfired.says_window (fun v hv => defect?_eq_none_iff.1 (hticks v hv))
    (defect?_eq_none_iff.1 hu) (List.pairwise_append.1 hordered).1

/-- Two recurrences make one firing, for an hour. In the last second of that hour the alarm is still
active; deactivated there, twice, it counts the rest of that minute and fires in the next one. -/
theorem fired_alarm_lasts_then_counts_anew_deactivated :
    let time (hour minute second : Nat) : CivilTime := ⟨15, 7, 1, .saturday, hour, minute, second⟩
    let made := ofSchedule (.clamped .hour (time 0 7 0) 2 60)
    let earlier : List Event := [.tick (time 16 7 30), .tick (time 16 7 45)]
    let later : List Event :=
      [.tick (time 17 40 0), .tick (time 18 7 0), .deactivate, .deactivate, .tick (time 18 7 30),
        .tick (time 19 7 0)]
    let run' := earlier ++ .tick (time 17 7 0) :: later
    let fired := run (earlier ++ [.tick (time 17 7 0)]) made
    (∀ u ∈ times run', u.defect? = none) ∧
      (times run').Pairwise (fun u v => u.toUnix ≤ v.toUnix) ∧
      Event.fires (.tick (time 17 7 0)) (run earlier made) = true ∧
      fired.activeUntil = (time 18 7 0).toUnix ∧
      (run [.tick (time 17 40 0)] fired).tick (time 18 7 0) = (true, fired) ∧
      ticksThat countsAt later fired = [time 18 7 30, time 19 7 0] ∧ firings later fired = 1 := by
  intro time made earlier later run' fired
  have hexist : ∀ u ∈ times run', u.defect? = none := by decide
  have hordered : (times run').Pairwise fun u v => u.toUnix ≤ v.toUnix := by decide
  have hfires : Event.fires (.tick (time 17 7 0)) (run earlier made) = true := by decide
  have hcounted : ticksThat countsAt later fired = [time 18 7 30, time 19 7 0] := by decide
  obtain ⟨hend, hwindow, hfirings, -, -⟩ := fired_alarm_lasts_then_counts_anew .hour (time 0 7 0) 2
    60 earlier later (time 17 7 0) hexist hordered hfires
  obtain ⟨-, -, hticks⟩ := hwindow [time 17 40 0] (time 18 7 0) _ rfl
  rw [hcounted, schedule_run] at hfirings
  exact ⟨hexist, hordered, hfires, hend.trans (by decide),
    (hticks (by decide)).trans (if_pos (by decide)), hcounted, hfirings.trans (by decide)⟩

end TimeSwitch.Alarm
