import TimeSwitch.Alarm.Schedule
import TimeSwitch.Calendar.UnixTime

/-!
A recurring alarm. It counts the minutes at which its target recurs, each once; when the count
is full it fires, and stays active until its duration has passed.
-/

namespace TimeSwitch

/-- The largest number of a 32-bit clock register, which sums of seconds do not run past. -/
def maxSeconds : Nat := 4294967295

structure Alarm where
  schedule : Schedule
  /-- An alarm that was never given a schedule stays at rest. -/
  enabled : Bool
  /-- The recurrences counted towards the next firing. -/
  seen : Nat
  active : Bool
  /-- The last second of the latest firing. -/
  activeUntil : Nat
  /-- The minute counted last. -/
  lastMinute : Option Nat
  enabled_of_active : active = true → enabled = true
  deriving DecidableEq, Repr

/-- What an alarm is doing, as shown to a user. -/
inductive Alarm.Phase
  | idle | counting | triggered
  deriving DecidableEq, Repr

namespace Alarm

/-- An alarm that has counted nothing. -/
def ofSchedule (schedule : Schedule) : Alarm :=
  ⟨schedule, true, 0, false, 0, none, nofun⟩

/-- The alarm without a schedule. -/
def unset : Alarm :=
  { ofSchedule .blank with enabled := false, enabled_of_active := nofun }

def phase (a : Alarm) : Phase :=
  if a.active then .triggered else if 0 < a.seen then .counting else .idle

/-- Ends an activation. -/
def deactivate (a : Alarm) : Alarm :=
  { a with active := false, enabled_of_active := nofun }

/-- Counts a recurrence in the minute of `now`, and fires if that fills the count. Only alarms that
were given a schedule count. -/
def countAt (now : CivilTime) (a : Alarm) : Alarm :=
  let a := { a with seen := a.seen + 1, lastMinute := some now.minuteNumber }
  if a.seen < a.schedule.count then a
  else { a with
    seen := 0
    active := a.enabled
    activeUntil := min (now.toUnix + a.schedule.minutes * 60) maxSeconds
    enabled_of_active := id }

/-- The target recurs at `now`, in a minute not counted yet. -/
def isDue (now : CivilTime) (a : Alarm) : Bool :=
  a.schedule.period.recurs a.schedule.target now && a.lastMinute != some now.minuteNumber

/-- Moves an alarm to the time `now` and says whether it is active. The tick that ends an
activation counts nothing. -/
def tick (now : CivilTime) (a : Alarm) : Bool × Alarm :=
  if !a.enabled then (false, a)
  else if a.active then
    if a.activeUntil < now.toUnix then (false, a.deactivate) else (true, a)
  else if a.isDue now then
    let counted := a.countAt now
    (counted.active, counted)
  else (false, a)

/-- Alarms are the same when they have the same schedule, whatever they are doing. -/
instance : BEq Alarm := ⟨fun a b => decide (a.schedule = b.schedule)⟩

def render (a : Alarm) : List Char := a.schedule.render

/-! ### What a tick leaves alone -/

@[simp] theorem schedule_countAt (now : CivilTime) (a : Alarm) :
    (a.countAt now).schedule = a.schedule := by
  unfold countAt; dsimp only; split <;> rfl

@[simp] theorem enabled_countAt (now : CivilTime) (a : Alarm) :
    (a.countAt now).enabled = a.enabled := by
  unfold countAt; dsimp only; split <;> rfl

@[simp] theorem schedule_deactivate (a : Alarm) : a.deactivate.schedule = a.schedule := rfl

@[simp] theorem enabled_deactivate (a : Alarm) : a.deactivate.enabled = a.enabled := rfl

@[simp] theorem seen_deactivate (a : Alarm) : a.deactivate.seen = a.seen := rfl

@[simp] theorem lastMinute_deactivate (a : Alarm) : a.deactivate.lastMinute = a.lastMinute := rfl

@[simp] theorem schedule_tick (now : CivilTime) (a : Alarm) :
    (a.tick now).2.schedule = a.schedule := by
  unfold tick; repeat' split
  all_goals simp

@[simp] theorem enabled_tick (now : CivilTime) (a : Alarm) :
    (a.tick now).2.enabled = a.enabled := by
  unfold tick; repeat' split
  all_goals simp

/-- A tick says whether the alarm is active after it. -/
theorem said_tick (now : CivilTime) (a : Alarm) : (a.tick now).1 = (a.tick now).2.active := by
  unfold tick
  split
  · rename_i hoff
    cases hactive : a.active with
    | false => rfl
    | true => simp [a.enabled_of_active hactive] at hoff
  · split
    · rename_i hactive
      split
      · rfl
      · simp [hactive]
    · rename_i hrest
      split
      · rfl
      · simp [hrest]

end Alarm

end TimeSwitch
