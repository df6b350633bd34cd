import TimeSwitch.Device.Controller
import TimeSwitch.Proofs.Sequence

/-!
One channel at a time. What belongs to a channel is kept in three places, its pin, its direction
and its level, but they change together and apart from those of the other channels. Boot and reset
turn every channel to the direction of the settings, each as if it were the only one.
-/

namespace TimeSwitch.Device

open Sequence

/-- The pin of a channel and what is recorded of it. -/
structure ChannelState (π : Type) where
  pin : π
  direction : Direction
  level : Bool

namespace ChannelState

variable {π : Type}

/-- A low input. -/
def blank (pin : π) : ChannelState π := ⟨pin, .input, false⟩

variable [Pin π]

/-- The channel after its pin was asked to take a direction. -/
def turned (direction : Direction) (s : ChannelState π) : ChannelState π :=
  match Pin.setDirection direction s.pin with
  | .ok _ pin => match direction with
    | .input => ⟨pin, .input, false⟩
    | .output => ⟨Pin.setLow pin, .output, false⟩
  | .error _ pin => { s with pin }

def driven (level : Bool) (s : ChannelState π) : ChannelState π :=
  ⟨Pin.setLevel level s.pin, s.direction, level⟩

end ChannelState

namespace Controller

variable {κ π : Type} {channel other : Channel}

def channelState (c : Controller κ π) (channel : Channel) : ChannelState π :=
  ⟨c.pin channel, c.panel.direction channel, c.panel.level channel⟩

/-- The states of the channels are all that pins and panel hold. -/
theorem eq_of_channelState {a b : Controller κ π}
    (h : ∀ channel, a.channelState channel = b.channelState channel) :
    a.pins = b.pins ∧ a.panel = b.panel := by
  constructor
  · ext i hi : 1
    exact congrArg ChannelState.pin (h ⟨i, hi⟩)
  · exact Panel.ext_channels (fun channel => congrArg ChannelState.direction (h channel))
      fun channel => congrArg ChannelState.level (h channel)

variable [Pin π]

/-! ### Turning a channel -/

theorem exists_setDirection_eq (channel : Channel) (direction : Direction) (c : Controller κ π) :
    ∃ pins panel, stateOf (setDirection channel direction c) = { c with pins, panel } := by
  rw [setDirection]
  cases Pin.setDirection direction (c.pin channel) with
  | ok _ pin => exact ⟨_, _, rfl⟩
  | error fault pin => exact ⟨_, c.panel, rfl⟩

theorem channelState_setDirection_self (channel : Channel) (direction : Direction)
    (c : Controller κ π) :
    (stateOf (setDirection channel direction c)).channelState channel =
      (c.channelState channel).turned direction := by
  rw [setDirection, ChannelState.turned, channelState, channelState]
  cases Pin.setDirection direction (c.pin channel) with
  | error fault after => simp only [stateOf, pin, Channel.valueIn_update_self]
  | ok _ after =>
      cases direction <;>
        simp only [stateOf, pin, Channel.valueIn_update_self, Panel.direction_setDirection_self,
          Panel.level_setDirection_self]

theorem channelState_setDirection_of_ne (h : channel ≠ other) (direction : Direction)
    (c : Controller κ π) :
    (stateOf (setDirection channel direction c)).channelState other = c.channelState other := by
  rw [setDirection, channelState, channelState]
  cases Pin.setDirection direction (c.pin channel) <;>
    simp only [stateOf, pin, Channel.valueIn_update_of_ne h, Panel.direction_setDirection_of_ne h,
      Panel.level_setDirection_of_ne h]

/-! ### Boot and reset -/

theorem restoreChannel_eq (c : Controller κ π) (channel : Channel) :
    c.restoreChannel channel =
      stateOf (setDirection channel (channel.valueIn c.settings.directions) c) := by
  rw [restoreChannel]
  cases setDirection channel (channel.valueIn c.settings.directions) c <;> rfl

theorem exists_foldl_restoreChannel_eq (channels : List Channel) (c : Controller κ π) :
    ∃ pins panel, channels.foldl restoreChannel c = { c with pins, panel } := by
  induction channels generalizing c with
  | nil => exact ⟨c.pins, c.panel, rfl⟩
  | cons channel channels ih =>
      obtain ⟨pins, panel, hchannel⟩ := exists_setDirection_eq channel
        (channel.valueIn c.settings.directions) c
      obtain ⟨pins', panel', hlater⟩ := ih (c.restoreChannel channel)
      refine ⟨pins', panel', ?_⟩
      rw [List.foldl_cons, hlater, restoreChannel_eq, hchannel]

theorem channelState_foldl_restoreChannel_of_notMem {channels : List Channel}
    (h : channel ∉ channels) (c : Controller κ π) :
    (channels.foldl restoreChannel c).channelState channel = c.channelState channel := by
  induction channels generalizing c with
  | nil => rfl
  | cons first channels ih =>
      rw [List.mem_cons, not_or] at h
      rw [List.foldl_cons, ih h.2, restoreChannel_eq,
        channelState_setDirection_of_ne (Ne.symm h.1)]

theorem channelState_foldl_restoreChannel {channels : List Channel} (hnodup : channels.Nodup)
    (hmem : channel ∈ channels) (c : Controller κ π) :
    (channels.foldl restoreChannel c).channelState channel =
      (c.channelState channel).turned (channel.valueIn c.settings.directions) := by
  induction channels generalizing c with
  | nil => cases hmem
  | cons first channels ih =>
      obtain ⟨hnew, hnodup⟩ := List.nodup_cons.1 hnodup
      rw [List.foldl_cons]
      rcases List.mem_cons.1 hmem with rfl | hmem
      · rw [channelState_foldl_restoreChannel_of_notMem hnew, restoreChannel_eq,
          channelState_setDirection_self]
      · have hne : first ≠ channel := fun heq => hnew (heq ▸ hmem)
        have hsettings : (c.restoreChannel first).settings = c.settings := by
          obtain ⟨pins, panel, hchannel⟩ := exists_setDirection_eq first
            (first.valueIn c.settings.directions) c
          rw [restoreChannel_eq, hchannel]
        rw [ih hnodup hmem, hsettings, restoreChannel_eq, channelState_setDirection_of_ne hne]

/-- A reset touches neither the clock nor the settings nor what was said before. -/
theorem exists_reset_eq (c : Controller κ π) : ∃ pins panel, c.reset =
    { c with pins, panel, alarms := .empty, triggers := c.settings.triggers } := by
  rw [reset, restore]
  exact exists_foldl_restoreChannel_eq Channel.all _

theorem channelState_reset (c : Controller κ π) (channel : Channel) :
    c.reset.channelState channel =
      (c.channelState channel).turned (channel.valueIn c.settings.directions) := by
  rw [reset, restore, channelState_foldl_restoreChannel Channel.nodup_all (Channel.mem_all channel)]
  rfl

theorem exists_boot_eq (clock : κ) (pins : Vector π 4) (settings : Settings) :
    ∃ pins' panel, boot clock pins settings =
      ⟨clock, pins', settings, .empty, settings.triggers, panel, .start, none⟩ := by
  rw [boot, restore]
  exact exists_foldl_restoreChannel_eq Channel.all
    ⟨clock, pins, settings, .empty, settings.triggers, .start, .start, none⟩

theorem channelState_boot (clock : κ) (pins : Vector π 4) (settings : Settings)
    (channel : Channel) :
    (boot clock pins settings).channelState channel =
      (ChannelState.blank (channel.valueIn pins)).turned
        (channel.valueIn settings.directions) := by
  rw [boot, restore, channelState_foldl_restoreChannel Channel.nodup_all (Channel.mem_all channel)]
  simp only [channelState, pin, Panel.direction_start, Panel.level_start, ChannelState.blank]

end Controller

end TimeSwitch.Device
