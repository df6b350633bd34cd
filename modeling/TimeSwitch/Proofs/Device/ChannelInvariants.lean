import TimeSwitch.Proofs.Device.Histories
import TimeSwitch.Proofs.Device.Ticking

/-!
What holds of every channel whatever happens. All that a controller does to a channel is to turn
it and, while it is an output, to drive it; a property of single channels that these keep is kept
by boot, requests, resets and ticks.
-/

namespace TimeSwitch.Device

open Sequence Wire

/-- Turning a channel keeps the property, and so does driving an output. -/
structure ChannelState.Kept {π : Type} [Pin π] (P : ChannelState π → Prop) : Prop where
  turned : ∀ {s : ChannelState π}, P s → ∀ direction, P (s.turned direction)
  driven : ∀ {s : ChannelState π}, P s → s.direction = .output → ∀ level, P (s.driven level)

namespace Controller

open ChannelState

variable {κ π : Type} {P : ChannelState π → Prop} {settings : Settings} {c : Controller κ π}

/-- The controller goes by these settings, and its channels have the property. -/
structure AllChannels (P : ChannelState π → Prop) (settings : Settings) (c : Controller κ π) :
    Prop where
  settings : c.settings = settings
  channels : ∀ channel, P (c.channelState channel)

theorem AllChannels.of_same (h : AllChannels P settings c) {after : Controller κ π}
    (hsettings : after.settings = c.settings) (hpins : after.pins = c.pins)
    (hpanel : after.panel = c.panel) : AllChannels P settings after where
  settings := hsettings.trans h.settings
  channels channel := by
    rw [channelState, pin, hpins, hpanel]
    exact h.channels channel

/-- A change of one channel. -/
theorem AllChannels.of_channel (h : AllChannels P settings c) {after : Controller κ π}
    (channel : Channel) (hsettings : after.settings = c.settings)
    (hself : P (after.channelState channel))
    (hother : ∀ other, channel ≠ other → after.channelState other = c.channelState other) :
    AllChannels P settings after where
  settings := hsettings.trans h.settings
  channels other := by
    by_cases heq : channel = other
    · exact heq ▸ hself
    · rw [hother other heq]
      exact h.channels other

variable [Pin π]

theorem allChannels_setDirection (hP : Kept P) (h : AllChannels P settings c) (channel : Channel)
    (direction : Direction) :
    AllChannels P settings (stateOf (setDirection channel direction c)) := by
  obtain ⟨pins, panel, hafter⟩ := exists_setDirection_eq channel direction c
  refine h.of_channel channel (by rw [hafter]) ?_ fun other hne =>
    channelState_setDirection_of_ne hne direction c
  rw [channelState_setDirection_self]
  exact hP.turned (h.channels channel) direction

theorem allChannels_boot (hP : Kept P) (clock : κ) {pins : Vector π 4} (settings : Settings)
    (hpins : ∀ channel : Channel, P (blank (channel.valueIn pins))) :
    AllChannels P settings (boot clock pins settings) where
  settings := by
    obtain ⟨pins', panel, hboot⟩ := exists_boot_eq clock pins settings
    rw [hboot]
  channels channel := by
    rw [channelState_boot]
    exact hP.turned (hpins channel) _

theorem allChannels_reset (hP : Kept P) (h : AllChannels P settings c) :
    AllChannels P settings c.reset where
  settings := by
    obtain ⟨pins, panel, hreset⟩ := exists_reset_eq c
    rw [hreset]
    exact h.settings
  channels channel := by
    rw [channelState_reset]
    exact hP.turned (h.channels channel) _

/-! ### Ticks -/

theorem allChannels_driveChannel (hP : Kept P) (h : AllChannels P settings c)
    (snapshot : Snapshot) (channel : Channel) :
    AllChannels P settings (driveChannel snapshot channel c).2 := by
  cases houtput : c.panel.direction channel with
  | input =>
      rw [driveChannel_input snapshot houtput]
      exact h
  | output =>
      refine h.of_channel channel frame_driveChannel.settings ?_ fun other hne =>
        channelState_driveChannel_of_ne snapshot hne c
      rw [channelState_driveChannel_self snapshot houtput]
      exact hP.driven (h.channels channel) houtput _

theorem allChannels_driveChannels (hP : Kept P) (snapshot : Snapshot) (channels : List Channel)
    (h : AllChannels P settings c) :
    AllChannels P settings (driveChannels snapshot channels c).2 := by
  induction channels generalizing c with
  | nil => exact h
  | cons channel channels ih =>
      rw [driveChannels_cons]
      exact ih (allChannels_driveChannel hP h snapshot channel)

variable [Clock κ]

theorem allChannels_tick (hP : Kept P) (h : AllChannels P settings c) :
    AllChannels P settings (stateOf (tick c)) := by
  rw [tick_eq]
  cases Clock.now c.clock with
  | error fault clock => exact h.of_same rfl rfl rfl
  | ok now clock =>
      have hmoved : AllChannels P settings (c.moveTo now clock) := h.of_same rfl rfl rfl
      exact allChannels_driveChannels hP (c.moveTo now clock).snapshot Channel.all hmoved

/-! ### Requests -/

theorem allChannels_perform (hP : Kept P) (h : AllChannels P settings c) (request : Request) :
    AllChannels P settings (stateOf (handlers.perform request c)) := by
  cases request with
  | setClock time =>
      rw [perform_setClock]
      cases Clock.set time c.clock <;> exact h.of_same rfl rfl rfl
  | readClock =>
      rw [perform_readClock]
      cases Clock.now c.clock <;> exact h.of_same rfl rfl rfl
  | setAlarm | clearAlarm | clearTrigger => exact h.of_same rfl rfl rfl
  | setTrigger channel text =>
      rw [perform_setTrigger, setTrigger_eq]
      split_ifs <;> exact h.of_same rfl rfl rfl
  | setDirection channel direction =>
      have hdirection := allChannels_setDirection hP h channel direction
      rw [perform_setDirection]
      cases hresult : setDirection channel direction c with
      | ok _ after | error _ after =>
          rw [hresult] at hdirection
          exact hdirection
  | readChannel channel => exact h
  | reset => exact allChannels_reset hP h

theorem allChannels_handled (hP : Kept P) (h : AllChannels P settings c) (tag : UInt8)
    (body : Octets) : AllChannels P settings (handled (tag :: body) c) := by
  obtain ⟨reply, hhandled | ⟨request, hhandled⟩⟩ := exists_handled_eq c tag body
  · rw [hhandled]
    exact h.of_same rfl rfl rfl
  · rw [hhandled]
    exact (allChannels_perform hP h request).of_same rfl rfl rfl

/-! ### Whatever happens -/

/-- What is done to a pin from outside does not take the property from its channel. -/
def Event.Spares (P : ChannelState π → Prop) : Event κ π → Prop
  | .pin _ change => ∀ s, P s → P { s with pin := change s.pin }
  | _ => True

theorem allChannels_act (hP : Kept P) (h : AllChannels P settings c) {event : Event κ π}
    (hevent : event.Spares P) : AllChannels P settings (event.act c) := by
  cases event with
  | line tag body => exact allChannels_handled hP h tag body
  | request r => exact allChannels_perform hP h r
  | tick => exact allChannels_tick hP h
  | take | clock change => exact h.of_same rfl rfl rfl
  | pin channel change =>
      refine h.of_channel channel rfl ?_ fun other hne => ?_
      · rw [Event.act, channelState, pin, Channel.valueIn_update_self]
        exact hevent _ (h.channels channel)
      · rw [Event.act, channelState, pin, Channel.valueIn_update_of_ne hne]
        rfl

theorem allChannels_run (hP : Kept P) (h : AllChannels P settings c) {events : List (Event κ π)}
    (hevents : ∀ event ∈ events, event.Spares P) : AllChannels P settings (run events c) := by
  induction events generalizing c with
  | nil => exact h
  | cons event events ih =>
      rw [List.forall_mem_cons] at hevents
      exact ih (allChannels_act hP h hevents.1) hevents.2

end Controller

end TimeSwitch.Device
