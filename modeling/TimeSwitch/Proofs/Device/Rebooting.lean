import TimeSwitch.Proofs.Device.Alike
import TimeSwitch.Proofs.Device.ChannelInvariants

/-!
A reset is a reboot. Resetting patches the controller as it is, and a channel whose pin refuses
its direction is left alone; that this leads where a boot leads rests on two invariants of every
history: an input is recorded low, and a channel is recorded as an output only if its pin can
drive.
-/

namespace TimeSwitch.Device

open Sequence Wire

/-- A pin of which it is settled whether it can drive. -/
class SettledPin (π : Type) extends Pin π where
  canDrive : π → Bool
  input_accepted : ∀ pin : π, ∃ after, setDirection .input pin = .ok () after
  output_accepted : ∀ pin : π,
    canDrive pin = true ↔ ∃ after, setDirection .output pin = .ok () after
  /-- A refusal changes nothing. -/
  refused : ∀ {direction fault} {pin after : π},
    setDirection direction pin = .error fault after → after = pin
  canDrive_setDirection : ∀ {direction} {pin after : π},
    setDirection direction pin = .ok () after → canDrive after = canDrive pin
  canDrive_setHigh : ∀ pin : π, canDrive (setHigh pin) = canDrive pin
  canDrive_setLow : ∀ pin : π, canDrive (setLow pin) = canDrive pin

open SettledPin (canDrive)

instance : SettledPin Bench.Pin where
  canDrive pin := pin.canDrive
  input_accepted pin := ⟨{ pin with direction := .input }, by
    simp [Pin.setDirection, Bench.Pin.setDirection]⟩
  output_accepted pin := by
    cases h : pin.canDrive <;> simp [Pin.setDirection, Bench.Pin.setDirection, h]
  refused h := by
    simp only [Pin.setDirection, Bench.Pin.setDirection] at h
    split at h
    · exact (EStateM.Result.error.inj h).2.symm
    · cases h
  canDrive_setDirection h := by
    simp only [Pin.setDirection, Bench.Pin.setDirection] at h
    split at h
    · cases h
    · obtain rfl := (EStateM.Result.ok.inj h).2
      rfl
  canDrive_setHigh _ := rfl
  canDrive_setLow _ := rfl

@[simp] theorem canDrive_setLevel {π : Type} [SettledPin π] (high : Bool) (pin : π) :
    canDrive (Pin.setLevel high pin) = canDrive pin := by
  cases high with
  | true => exact SettledPin.canDrive_setHigh pin
  | false => exact SettledPin.canDrive_setLow pin

/-! ### One channel -/

namespace ChannelState

variable {π : Type} [SettledPin π] {s : ChannelState π}

/-- What is recorded of the channel agrees with what its pin can do. -/
structure Sound (s : ChannelState π) : Prop where
  low : s.direction = .input → s.level = false
  able : s.direction = .output → canDrive s.pin = true

theorem sound_blank (pin : π) : (blank pin).Sound := ⟨fun _ => rfl, nofun⟩

theorem Sound.driven (h : s.Sound) (houtput : s.direction = .output) (level : Bool) :
    (s.driven level).Sound where
  low hinput := by
    rw [ChannelState.driven, houtput] at hinput
    cases hinput
  able _ := by
    rw [ChannelState.driven, canDrive_setLevel]
    exact h.able houtput

theorem Sound.turned (h : s.Sound) (direction : Direction) : (s.turned direction).Sound := by
  rw [ChannelState.turned]
  cases hpin : Pin.setDirection direction s.pin with
  | error fault after =>
      obtain rfl := SettledPin.refused hpin
      exact h
  | ok _ after =>
      cases direction with
      | input =>
          refine ⟨fun _ => rfl, fun houtput => ?_⟩
          cases houtput
      | output =>
          refine ⟨fun hinput => ?_, fun _ => ?_⟩
          · cases hinput
          · rw [SettledPin.canDrive_setLow, SettledPin.canDrive_setDirection hpin]
            exact (SettledPin.output_accepted s.pin).2 ⟨after, hpin⟩

/-- A pin that refuses its direction cannot drive, so its channel is a low input already. -/
theorem Sound.eq_blank_of_refused (h : s.Sound) {direction : Direction} {fault : PinFault}
    {after : π} (hrefused : Pin.setDirection direction s.pin = .error fault after) :
    s = blank s.pin := by
  have hrefuses : ¬∃ after, Pin.setDirection direction s.pin = .ok () after := by
    rintro ⟨after', haccepted⟩
    rw [hrefused] at haccepted
    cases haccepted
  have hinput : s.direction = .input := by
    cases hdirection : s.direction with
    | input => rfl
    | output =>
        exfalso
        apply hrefuses
        cases direction with
        | input => exact SettledPin.input_accepted s.pin
        | output => exact (SettledPin.output_accepted s.pin).1 (h.able hdirection)
  have hlow := h.low hinput
  obtain ⟨pin, direction, level⟩ := s
  obtain rfl := hinput
  obtain rfl := hlow
  rfl

theorem kept_sound : Kept (Sound : ChannelState π → Prop) where
  turned := Sound.turned
  driven := Sound.driven

/-- Turned round, a channel cannot be told from one that was never used. -/
theorem Sound.turned_eq (h : s.Sound) (direction : Direction) :
    s.turned direction = (blank s.pin).turned direction := by
  cases hpin : Pin.setDirection direction s.pin with
  | ok _ after =>
      rw [ChannelState.turned, ChannelState.turned, blank, hpin]
  | error fault after => rw [← h.eq_blank_of_refused hpin]

end ChannelState

namespace Controller

variable {κ π : Type} [SettledPin π]

/-! ### All channels -/

structure Sound (settings : Settings) (c : Controller κ π) : Prop where
  settings : c.settings = settings
  channels : ∀ channel, (c.channelState channel).Sound

variable {settings : Settings} {c : Controller κ π}

theorem sound_iff : Sound settings c ↔ AllChannels ChannelState.Sound settings c :=
  ⟨fun h => ⟨h.settings, h.channels⟩, fun h => ⟨h.settings, h.channels⟩⟩

theorem sound_boot (clock : κ) (pins : Vector π 4) (settings : Settings) :
    Sound settings (boot clock pins settings) :=
  sound_iff.2 (allChannels_boot ChannelState.kept_sound clock settings fun _ =>
    ChannelState.sound_blank _)

theorem reset_alike_boot (h : Sound settings c) :
    Alike c.reset (boot c.clock c.pins settings) := by
  have hchannels : ∀ channel, c.reset.channelState channel =
      (boot c.clock c.pins settings).channelState channel := by
    intro channel
    rw [channelState_reset, channelState_boot, h.settings, (h.channels channel).turned_eq]
    rfl
  obtain ⟨hpins, hpanel⟩ := eq_of_channelState hchannels
  obtain ⟨pins, panel, hreset⟩ := exists_reset_eq c
  obtain ⟨pins', panel', hboot⟩ := exists_boot_eq c.clock c.pins settings
  rw [hreset, hboot] at hpins hpanel ⊢
  exact ⟨rfl, hpins, h.settings, rfl, congrArg Settings.triggers h.settings, hpanel⟩

/-! ### What every history keeps -/

/-- What is done to a pin from outside does not change whether it can drive. -/
def Event.KeepsAbility : Event κ π → Prop
  | .pin _ change => ∀ pin, canDrive (change pin) = canDrive pin
  | _ => True

theorem spares_sound {event : Event κ π} (h : event.KeepsAbility) :
    event.Spares ChannelState.Sound := by
  cases event with
  | line | request | tick | take | clock => trivial
  | pin channel change =>
      intro s hs
      refine ⟨hs.low, fun houtput => ?_⟩
      exact (h s.pin).trans (hs.able houtput)

variable [Clock κ]

theorem sound_run (h : Sound settings c) {events : List (Event κ π)}
    (hevents : ∀ event ∈ events, event.KeepsAbility) : Sound settings (run events c) :=
  sound_iff.2 (allChannels_run ChannelState.kept_sound (sound_iff.1 h) fun event hmem =>
    spares_sound (hevents event hmem))

/-- After any history a reset leads where booting anew with the same settings would lead, and what
happens later cannot tell the two apart. -/
theorem reset_is_reboot (clock : κ) (pins : Vector π 4) (settings : Settings)
    (history : List (Event κ π)) (hhistory : ∀ event ∈ history, event.KeepsAbility) :
    let c := run history (boot clock pins settings)
    let rebooted := boot c.clock c.pins settings
    c.reset.alarms = .empty ∧ Alike c.reset rebooted ∧
      ∀ later, observed later c.reset = observed later rebooted := by
  intro c rebooted
  have halike : Alike c.reset rebooted :=
    reset_alike_boot (sound_run (sound_boot clock pins settings) hhistory)
  obtain ⟨pins', panel', hreset⟩ := exists_reset_eq c
  refine ⟨?_, halike, fun later => observed_eq_of_alike halike later⟩
  rw [hreset]

/-- An output was high and another channel had become one too when the reset came. The settings
want the last channel to be an output as well, but its pin cannot drive. -/
theorem reset_is_reboot_high :
    let settings : Settings :=
      { Settings.standard with directions := #v[.output, .input, .input, .output] }
    let pins : Vector Bench.Pin 4 :=
      #v[.start, .start, .start, { Bench.Pin.start with canDrive := false }]
    let history : List (Event SoftClock Bench.Pin) :=
      [.pin 1 fun pin => { pin with input := some true }, .request (.setTrigger 0 "1"),
        .request (.setDirection 2 .output), .clock (·.advance 60), .tick]
    let c := run history (boot ⟨some 1438452420, 0⟩ pins settings)
    (∀ event ∈ history, event.KeepsAbility) ∧ Alike c.reset (boot c.clock c.pins settings) ∧
      c.panel.levels.toList = [true, false, false, false] ∧
      c.reset.panel.levels.toList = [false, false, false, false] ∧
      c.reset.panel.directions.toList = [.output, .input, .input, .input] := by
  intro settings pins history c
  have hhistory : ∀ event ∈ history, event.KeepsAbility := by
    simp only [history, List.forall_mem_cons]
    exact ⟨fun _ => rfl, trivial, trivial, trivial, trivial, nofun⟩
  obtain ⟨-, halike, -⟩ := reset_is_reboot ⟨some 1438452420, 0⟩ pins settings history hhistory
  exact ⟨hhistory, halike, by decide +kernel, by decide +kernel, by decide +kernel⟩

end Controller

end TimeSwitch.Device
