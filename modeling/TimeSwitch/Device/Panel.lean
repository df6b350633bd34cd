import TimeSwitch.Channel

/-!
The device's own record of its channels: the direction of each and the level it was last driven
to. A channel that changes its direction starts low.
-/

namespace TimeSwitch.Device

structure Panel where
  directions : Vector Direction 4
  levels : Vector Bool 4
  deriving DecidableEq

namespace Panel

/-- Every channel low, with the given direction. -/
def ofDirections (directions : Vector Direction 4) : Panel :=
  ⟨directions, Vector.replicate 4 false⟩

/-- Every channel a low input. -/
def start : Panel := ofDirections (Vector.replicate 4 .input)

def direction (panel : Panel) (channel : Channel) : Direction := channel.valueIn panel.directions

def level (panel : Panel) (channel : Channel) : Bool := channel.valueIn panel.levels

def isOutput (panel : Panel) (channel : Channel) : Bool :=
  panel.direction channel == .output

def outputs (panel : Panel) : List Channel :=
  Channel.all.filter panel.isOutput

def setDirection (panel : Panel) (channel : Channel) (direction : Direction) : Panel :=
  ⟨channel.update direction panel.directions, channel.update false panel.levels⟩

def setLevel (panel : Panel) (channel : Channel) (high : Bool) : Panel :=
  { panel with levels := channel.update high panel.levels }

/-- The channels whose level differs between two records. -/
def changed (before after : Panel) : List Channel :=
  Channel.all.filter fun channel => before.level channel != after.level channel

@[simp] theorem direction_start (channel : Channel) : start.direction channel = .input := by
  simp [start, ofDirections, direction]

@[simp] theorem level_start (channel : Channel) : start.level channel = false := by
  simp [start, ofDirections, level]

/-- A record is known by what it says of each channel. -/
theorem ext_channels {a b : Panel} (hdirection : ∀ channel, a.direction channel = b.direction channel)
    (hlevel : ∀ channel, a.level channel = b.level channel) : a = b := by
  obtain ⟨directions, levels⟩ := a
  obtain ⟨directions', levels'⟩ := b
  congr 1
  · ext i hi : 1
    exact hdirection ⟨i, hi⟩
  · ext i hi : 1
    exact hlevel ⟨i, hi⟩

@[simp] theorem direction_setDirection_self (panel : Panel) (channel : Channel) (d : Direction) :
    (panel.setDirection channel d).direction channel = d := by
  simp [setDirection, direction]

@[simp] theorem level_setDirection_self (panel : Panel) (channel : Channel) (d : Direction) :
    (panel.setDirection channel d).level channel = false := by
  simp [setDirection, level]

theorem direction_setDirection_of_ne {panel : Panel} {a b : Channel} {d : Direction}
    (h : a ≠ b) : (panel.setDirection a d).direction b = panel.direction b := by
  simp [setDirection, direction, Channel.valueIn_update_of_ne h]

theorem level_setDirection_of_ne {panel : Panel} {a b : Channel} {d : Direction} (h : a ≠ b) :
    (panel.setDirection a d).level b = panel.level b := by
  simp [setDirection, level, Channel.valueIn_update_of_ne h]

@[simp] theorem direction_setLevel (panel : Panel) (a b : Channel) (high : Bool) :
    (panel.setLevel a high).direction b = panel.direction b := rfl

@[simp] theorem level_setLevel_self (panel : Panel) (channel : Channel) (high : Bool) :
    (panel.setLevel channel high).level channel = high := by
  simp [setLevel, level]

theorem level_setLevel_of_ne {panel : Panel} {a b : Channel} {high : Bool} (h : a ≠ b) :
    (panel.setLevel a high).level b = panel.level b := by
  simp [setLevel, level, Channel.valueIn_update_of_ne h]

end Panel

end TimeSwitch.Device
