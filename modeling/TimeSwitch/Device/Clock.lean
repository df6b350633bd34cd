import TimeSwitch.Alarm.Basic

/-!
The clock of the device. Any clock may be fitted; `SoftClock` counts seconds in software. The
weekday of a software clock is the one it was set to, moved on at every midnight, even if the
calendar disagrees.
-/

namespace TimeSwitch.Device

inductive ClockFault
  /-- The clock was never set. -/
  | notSet
  /-- The clock does not answer. -/
  | bus
  /-- The clock holds, or was given, a time that does not exist. -/
  | invalidTime
  deriving DecidableEq, Repr

class Clock (κ : Type) where
  now : EStateM ClockFault κ CivilTime
  set : CivilTime → EStateM ClockFault κ Unit

structure SoftClock where
  /-- The seconds since 1970, once the clock is set. -/
  seconds : Option Nat
  /-- The days that the weekday is ahead of the calendar. -/
  weekdayShift : Nat
  deriving DecidableEq, Repr

namespace SoftClock

def unset : SoftClock := ⟨none, 0⟩

def isSet (clock : SoftClock) : Bool := clock.seconds.isSome

/-- Sets the clock, unless the time does not exist. -/
def set (time : CivilTime) : EStateM ClockFault SoftClock Unit := fun clock =>
  match time.checked, CivilTime.ofUnix time.toUnix with
  | .ok _, .ok calendar => .ok ()
    { seconds := some time.toUnix
      weekdayShift := (time.weekday.index + 7 - calendar.weekday.index) % 7 }
  | _, _ => .error .invalidTime clock

def now : EStateM ClockFault SoftClock CivilTime := fun clock =>
  match clock.seconds with
  | none => .error .notSet clock
  | some seconds => match CivilTime.ofUnix seconds with
    | .error _ => .error .invalidTime clock
    | .ok time => .ok
      { time with weekday := .afterSunday (time.weekday.index + clock.weekdayShift) } clock

/-- Moves a clock that is set forward, up to the largest number it can count to. -/
def advance (clock : SoftClock) (seconds : Nat) : SoftClock :=
  { clock with seconds := clock.seconds.map fun s => min (s + seconds) maxSeconds }

/-- A clock that runs from `time` on. -/
def startingAt (time : CivilTime) : Except ClockFault SoftClock :=
  match set time unset with
  | .ok _ clock => .ok clock
  | .error fault _ => .error fault

instance : Clock SoftClock where
  now := now
  set := set

/-- Reading a software clock does not change it. -/
theorem now_state (clock : SoftClock) :
    (∃ time, now clock = .ok time clock) ∨ ∃ fault, now clock = .error fault clock := by
  unfold now
  split
  · exact .inr ⟨_, rfl⟩
  · split
    · exact .inr ⟨_, rfl⟩
    · exact .inl ⟨_, rfl⟩

@[simp] theorem advance_zero (clock : SoftClock) (h : ∀ s ∈ clock.seconds, s ≤ maxSeconds) :
    clock.advance 0 = clock := by
  obtain ⟨_ | s, shift⟩ := clock
  · rfl
  · simp only [Option.mem_def, Option.some.injEq, forall_eq'] at h
    simp [advance, Nat.min_eq_left h]

/-- Only the total of the advances counts. -/
theorem advance_advance (clock : SoftClock) (a b : Nat) :
    (clock.advance a).advance b = clock.advance (a + b) := by
  obtain ⟨_ | s, shift⟩ := clock
  · rfl
  · simp only [advance, Option.map_some, SoftClock.mk.injEq, Option.some.injEq, and_true]
    omega

end SoftClock

end TimeSwitch.Device
