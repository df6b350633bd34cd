import Mathlib.Tactic.SplitIfs
import TimeSwitch.Alarm.Basic

/-!
What happens to an alarm over time. An alarm is ticked and sometimes deactivated; `moves_tick`
lists all that a tick can do to an alarm that has a schedule, and every fact about a run follows
from it by way of single events.
-/

namespace TimeSwitch.Alarm

/-- Something that happens to an alarm. -/
inductive Event
  | tick (now : CivilTime)
  | deactivate
  deriving DecidableEq, Repr

namespace Event

/-- The alarm after the event. -/
def act : Event → Alarm → Alarm
  | tick now, a => (a.tick now).2
  | deactivate, a => a.deactivate

def time? : Event → Option CivilTime
  | tick now => some now
  | deactivate => none

end Event

/-- The alarm after events that happen in order. -/
def run (events : List Event) (a : Alarm) : Alarm :=
  events.foldl (fun a event => event.act a) a

/-- The times of the ticks among the events. -/
def times (events : List Event) : List CivilTime :=
  events.filterMap Event.time?

@[simp] theorem run_cons (event : Event) (events : List Event) (a : Alarm) :
    run (event :: events) a = run events (event.act a) := rfl

theorem run_append (earlier later : List Event) (a : Alarm) :
    run (earlier ++ later) a = run later (run earlier a) := List.foldl_append

@[simp] theorem times_tick (now : CivilTime) (events : List Event) :
    times (.tick now :: events) = now :: times events := rfl

theorem times_append (earlier later : List Event) :
    times (earlier ++ later) = times earlier ++ times later := List.filterMap_append

/-! ### What a tick can do -/

/-- The alarm has a schedule, and a firing uses up all that it has counted. -/
structure InCycle (a : Alarm) : Prop where
  enabled : a.enabled = true
  seen_lt : a.seen < a.schedule.count

theorem inCycle_ofSchedule (period : Period) (target : CivilTime) (count minutes : Nat) :
    (ofSchedule (.clamped period target count minutes)).InCycle :=
  ⟨rfl, (Schedule.count_clamped_bounds period target count minutes).1⟩

/-- What a tick at `now` makes of an alarm. -/
inductive Moves (now : CivilTime) (a : Alarm) : Alarm → Prop
  | expires (hactive : a.active = true) (hover : a.activeUntil < now.toUnix) :
      Moves now a a.deactivate
  | lasts (hactive : a.active = true) (hin : now.toUnix ≤ a.activeUntil) : Moves now a a
  | counts (hrest : a.active = false) (hdue : a.isDue now = true)
      (hmore : a.seen + 1 < a.schedule.count) :
      Moves now a { a with seen := a.seen + 1, lastMinute := some now.minuteNumber }
  | fires {henabled : a.enabled = true} (hrest : a.active = false) (hdue : a.isDue now = true)
      (hfull : a.seen + 1 = a.schedule.count) :
      Moves now a { a with
        seen := 0
        active := true
        activeUntil := min (now.toUnix + a.schedule.minutes * 60) maxSeconds
        lastMinute := some now.minuteNumber
        enabled_of_active := fun _ => henabled }
  | waits (hrest : a.active = false) (hnot : a.isDue now = false) : Moves now a a

variable {a : Alarm}

theorem moves_countAt (h : a.InCycle) {now : CivilTime} (hrest : a.active = false)
    (hdue : a.isDue now = true) : Moves now a (a.countAt now) := by
  have hlt := h.seen_lt
  unfold countAt
  dsimp only
  split
  · rename_i hmore
    exact .counts hrest hdue hmore
  · rename_i hfull
    have hfires := @Moves.fires now a h.enabled hrest hdue (by omega)
    simpa only [h.enabled] using hfires

theorem moves_tick (h : a.InCycle) (now : CivilTime) : Moves now a (a.tick now).2 := by
  have henabled := h.enabled
  unfold tick
  split_ifs with hoff hactive hover hdue
  · simp [henabled] at hoff
  · exact .expires hactive hover
  · exact .lasts hactive (Nat.not_lt.1 hover)
  · exact moves_countAt h (by simpa using hactive) hdue
  · exact .waits (by simpa using hactive) (by simpa using hdue)

theorem inCycle_act (h : a.InCycle) (event : Event) : (event.act a).InCycle := by
  obtain ⟨henabled, hlt⟩ := h
  cases event with
  | deactivate => exact ⟨henabled, hlt⟩
  | tick now =>
      have hmoves := moves_tick ⟨henabled, hlt⟩ now
      rw [Event.act]
      generalize (a.tick now).2 = b at hmoves
      cases hmoves with
      | expires | lasts | waits => exact ⟨henabled, hlt⟩
      | counts hrest hdue hmore => exact ⟨henabled, hmore⟩
      | fires hrest hdue hfull => exact ⟨henabled, Nat.lt_of_le_of_lt (Nat.zero_le _) hlt⟩

@[simp] theorem schedule_act (event : Event) (a : Alarm) :
    (event.act a).schedule = a.schedule := by
  cases event with
  | tick now => exact schedule_tick now a
  | deactivate => rfl

end TimeSwitch.Alarm
