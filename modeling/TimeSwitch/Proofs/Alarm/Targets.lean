import TimeSwitch.Proofs.Alarm.Events

/-!
What a target is to an alarm. An alarm looks at its target only to see whether it recurs, so two
targets that recur at the same times make no difference that shows, whatever happens.
-/

namespace TimeSwitch.Alarm

/-- What an alarm shows after something has happened to it. -/
structure Shown where
  /-- What a tick said: whether the alarm is active. -/
  said : Option Bool
  seen : Nat
  phase : Phase
  activeUntil : Nat
  deriving DecidableEq

namespace Event

def said : Event → Alarm → Option Bool
  | tick now, a => some (a.tick now).1
  | deactivate, _ => none

end Event

/-- What is shown after each of the events. -/
def shown : List Event → Alarm → List Shown
  | [], _ => []
  | event :: events, a =>
    ⟨event.said a, (event.act a).seen, (event.act a).phase, (event.act a).activeUntil⟩ ::
      shown events (event.act a)

def withTarget (target : CivilTime) (a : Alarm) : Alarm :=
  { a with schedule := { a.schedule with target } }

/-- The target recurs whenever the alarm's own does. -/
def SameTimes (target : CivilTime) (a : Alarm) : Prop :=
  ∀ now, a.schedule.period.recurs target now = a.schedule.period.recurs a.schedule.target now

variable {target now : CivilTime} {a : Alarm}

theorem isDue_withTarget (h : SameTimes target a) :
    (a.withTarget target).isDue now = a.isDue now := by
  rw [isDue, isDue, ← h now]
  rfl

theorem countAt_of_lt (h : a.seen + 1 < a.schedule.count) :
    a.countAt now = { a with seen := a.seen + 1, lastMinute := some now.minuteNumber } :=
  if_pos h

theorem countAt_of_not_lt (h : ¬a.seen + 1 < a.schedule.count) :
    a.countAt now = { a with
      seen := 0
      active := a.enabled
      activeUntil := min (now.toUnix + a.schedule.minutes * 60) maxSeconds
      lastMinute := some now.minuteNumber
      enabled_of_active := id } :=
  if_neg h

theorem countAt_withTarget :
    (a.withTarget target).countAt now = (a.countAt now).withTarget target := by
  by_cases hmore : a.seen + 1 < a.schedule.count
  · have hmore' : (a.withTarget target).seen + 1 < (a.withTarget target).schedule.count := hmore
    rw [countAt_of_lt hmore, countAt_of_lt hmore']
    rfl
  · have hfull' : ¬(a.withTarget target).seen + 1 < (a.withTarget target).schedule.count := hmore
    rw [countAt_of_not_lt hmore, countAt_of_not_lt hfull']
    rfl

theorem tick_withTarget (h : SameTimes target a) :
    (a.withTarget target).tick now = ((a.tick now).1, (a.tick now).2.withTarget target) := by
  unfold tick
  rw [isDue_withTarget h, countAt_withTarget]
  have hsame : (a.withTarget target).enabled = a.enabled ∧
      (a.withTarget target).active = a.active ∧
      (a.withTarget target).activeUntil = a.activeUntil := ⟨rfl, rfl, rfl⟩
  rw [hsame.1, hsame.2.1, hsame.2.2]
  split_ifs <;> rfl

theorem sameTimes_act (h : SameTimes target a) (event : Event) : SameTimes target (event.act a) := by
  intro now
  rw [schedule_act]
  exact h now

theorem act_withTarget (h : SameTimes target a) (event : Event) :
    event.said (a.withTarget target) = event.said a ∧
      event.act (a.withTarget target) = (event.act a).withTarget target := by
  cases event with
  | deactivate => exact ⟨rfl, rfl⟩
  | tick now =>
      rw [Event.said, Event.said, Event.act, Event.act, tick_withTarget h]
      exact ⟨rfl, rfl⟩

theorem shown_withTarget (h : SameTimes target a) (events : List Event) :
    shown events (a.withTarget target) = shown events a := by
  induction events generalizing a with
  | nil => rfl
  | cons event events ih =>
      obtain ⟨hsaid, hact⟩ := act_withTarget h event
      rw [shown, shown, hsaid, hact, ih (sameTimes_act h event)]
      rfl

end TimeSwitch.Alarm
