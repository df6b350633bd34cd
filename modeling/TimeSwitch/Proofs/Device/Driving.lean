import TimeSwitch.Proofs.Device.ChannelInvariants
import TimeSwitch.Proofs.Device.PinMaps

/-!
What the panel says is what the pins do. A pin keeps its own direction, which the panel records a
second time, and its level is recorded only when it is driven; that the records never part from
the pins, and that no pin is driven against its direction, is seen by watching the pins: a watched
pin behaves like the pin it wraps and notes each time that it is driven.
-/

namespace TimeSwitch.Device

open Sequence Wire

/-- A pin that has the direction it was last switched to. -/
class SwitchedPin (π : Type) extends DrivenPin π where
  direction_setDirection : ∀ {direction' : Direction} {pin after : π},
    setDirection direction' pin = .ok () after → direction after = direction'
  /-- A refusal changes nothing. -/
  refused : ∀ {direction' fault} {pin after : π},
    setDirection direction' pin = .error fault after → after = pin
  direction_setHigh : ∀ pin : π, direction (setHigh pin) = direction pin
  direction_setLow : ∀ pin : π, direction (setLow pin) = direction pin

instance : SwitchedPin Bench.Pin where
  direction_setDirection h := by
    simp only [Pin.setDirection, Bench.Pin.setDirection] at h
    split at h
    · cases h
    · obtain rfl := (EStateM.Result.ok.inj h).2
      rfl
  refused h := by
    simp only [Pin.setDirection, Bench.Pin.setDirection] at h
    split at h
    · exact (EStateM.Result.error.inj h).2.symm
    · cases h
  direction_setHigh _ := rfl
  direction_setLow _ := rfl

@[simp] theorem direction_setLevel {π : Type} [SwitchedPin π] (high : Bool) (pin : π) :
    Pin.direction (Pin.setLevel high pin) = Pin.direction pin := by
  cases high with
  | true => exact SwitchedPin.direction_setHigh pin
  | false => exact SwitchedPin.direction_setLow pin

/-! ### Watched pins -/

/-- The direction that a pin had when it was driven, and the level that it was driven to. -/
structure Drive where
  direction : Direction
  high : Bool
  deriving DecidableEq

/-- A pin and all that it was driven to, in order. -/
structure Watched (π : Type) where
  pin : π
  drives : List Drive
  deriving DecidableEq

namespace Watched

variable {π : Type}

/-- A pin from now on. -/
def start (pin : π) : Watched π := ⟨pin, []⟩

variable [Pin π]

/-- Drives the pin and notes it. -/
def drive (high : Bool) (w : Watched π) : Watched π :=
  ⟨Pin.setLevel high w.pin, w.drives ++ [⟨Pin.direction w.pin, high⟩]⟩

instance : Pin (Watched π) where
  isHigh w := Pin.isHigh w.pin
  setHigh := drive true
  setLow := drive false
  isSetHigh w := Pin.isSetHigh w.pin
  setDirection direction w := mapState (⟨·, w.drives⟩) (Pin.setDirection direction w.pin)
  direction w := Pin.direction w.pin

theorem setLevel_eq (high : Bool) (w : Watched π) : Pin.setLevel high w = w.drive high := by
  cases high <;> rfl

/-- A watched pin behaves like the pin. -/
theorem pinMap : PinMap (Watched.pin : Watched π → π) where
  isHigh _ := rfl
  setHigh _ := rfl
  setLow _ := rfl
  setDirection direction w := by
    change _ = mapState Watched.pin (mapState (⟨·, w.drives⟩) (Pin.setDirection direction w.pin))
    cases Pin.setDirection direction w.pin <;> rfl

end Watched

/-! ### One channel -/

namespace ChannelState

variable {π : Type} {s : ChannelState (Watched π)}

/-- What is recorded of a channel is what its pin does, and its pin was driven as an output only. -/
structure Agrees [Pin π] (s : ChannelState (Watched π)) : Prop where
  direction : s.direction = Pin.direction s.pin.pin
  low : s.direction = .input → s.level = false
  level : s.direction = .output → Pin.isSetHigh s.pin.pin = s.level
  last : s.direction = .output → s.pin.drives.getLast? = some ⟨.output, s.level⟩
  drives : ∀ drive ∈ s.pin.drives, drive.direction = .output

variable [SwitchedPin π]

theorem agrees_blank {pin : π} (hpin : Pin.direction pin = .input) :
    (blank (Watched.start pin)).Agrees :=
  ⟨hpin.symm, fun _ => rfl, nofun, nofun, nofun⟩

/-- Wherever it comes from, a pin that is an output may be driven. -/
theorem agrees_driven {w : Watched π} (hpin : Pin.direction w.pin = .output)
    (hdrives : ∀ drive ∈ w.drives, drive.direction = .output) (level : Bool) :
    ChannelState.Agrees ⟨Pin.setLevel level w, .output, level⟩ := by
  rw [Watched.setLevel_eq, Watched.drive, hpin]
  refine ⟨?_, nofun, fun _ => isSetHigh_setLevel level w.pin, fun _ => ?_, ?_⟩
  · exact (hpin.symm.trans (direction_setLevel level w.pin).symm)
  · exact List.getLast?_concat
  · intro drive hdrive
    rcases List.mem_append.1 hdrive with hold | hnew
    · exact hdrives drive hold
    · rw [List.mem_singleton.1 hnew]

theorem Agrees.driven (h : s.Agrees) (houtput : s.direction = .output) (level : Bool) :
    (s.driven level).Agrees := by
  rw [ChannelState.driven, houtput]
  exact agrees_driven (h.direction.symm.trans houtput) h.drives level

theorem Agrees.turned (h : s.Agrees) (direction : Direction) : (s.turned direction).Agrees := by
  have hpin : Pin.setDirection direction s.pin =
      mapState (⟨·, s.pin.drives⟩) (Pin.setDirection direction s.pin.pin) := rfl
  rw [ChannelState.turned, hpin]
  cases hresult : Pin.setDirection direction s.pin.pin with
  | error fault after =>
      -- the pin is the same, and the record is not touched on a refusal
      obtain rfl := SwitchedPin.refused hresult
      exact h
  | ok _ after =>
      have hafter := SwitchedPin.direction_setDirection hresult
      cases direction with
      | input =>
          refine ⟨hafter.symm, fun _ => rfl, fun houtput => ?_, fun houtput => ?_, h.drives⟩ <;>
            cases houtput
      -- an output is driven low only once its pin has been switched
      | output => exact @agrees_driven π _ ⟨after, s.pin.drives⟩ hafter h.drives false

theorem kept_agrees : Kept (Agrees : ChannelState (Watched π) → Prop) where
  turned := Agrees.turned
  driven := Agrees.driven

end ChannelState

namespace Controller

variable {κ π : Type}

/-! ### Every channel -/

/-- The event for watched pins. What is done to a pin from outside is not noted. -/
def Event.watched : Event κ π → Event κ (Watched π) :=
  Event.withPins fun change w => { w with pin := change w.pin }

section

variable [Pin π]

/-- What is done to a pin from outside neither turns nor drives it. -/
def Event.KeepsDriving : Event κ π → Prop
  | .pin _ change => ∀ pin, Pin.direction (change pin) = Pin.direction pin ∧
      Pin.isSetHigh (change pin) = Pin.isSetHigh pin
  | _ => True

theorem spares_watched {event : Event κ π} (h : event.KeepsDriving) :
    event.watched.Spares ChannelState.Agrees := by
  cases event with
  | line | request | tick | take | clock => trivial
  | pin channel change =>
      intro s hs
      obtain ⟨hdirection, hlevel⟩ := h s.pin.pin
      exact ⟨hs.direction.trans hdirection.symm, hs.low, fun ho => hlevel.trans (hs.level ho),
        hs.last, hs.drives⟩

end

variable [SwitchedPin π] [Clock κ]

theorem allChannels_watched (clock : κ) {pins : Vector π 4} (settings : Settings)
    (hpins : ∀ channel : Channel, Pin.direction (channel.valueIn pins) = .input)
    {history : List (Event κ π)} (hhistory : ∀ event ∈ history, event.KeepsDriving) :
    AllChannels ChannelState.Agrees settings
      (run (history.map Event.watched) (boot clock (pins.map Watched.start) settings)) := by
  refine allChannels_run ChannelState.kept_agrees ?_ ?_
  · refine allChannels_boot ChannelState.kept_agrees clock settings fun channel => ?_
    rw [channel.valueIn_map]
    exact ChannelState.agrees_blank (hpins channel)
  · exact List.forall_mem_map.2 fun event hmem => spares_watched (hhistory event hmem)

theorem run_watched (clock : κ) (pins : Vector π 4) (settings : Settings)
    (history : List (Event κ π)) :
    (run (history.map Event.watched) (boot clock (pins.map Watched.start) settings)).mapPins
      Watched.pin = run history (boot clock pins settings) := by
  have hpins : (pins.map Watched.start).map Watched.pin = pins := by
    rw [Vector.map_map]
    exact Vector.map_id pins
  rw [Event.watched, ← run_mapPins Watched.pinMap fun _ _ => rfl, ← boot_mapPins Watched.pinMap,
    hpins]

/-- After any history, a channel is recorded to have the direction of its pin; an input is
recorded low, and an output as what its pin was driven to last, which is also what reading the
channel answers. Watching the pins changes nothing, and shows that no pin was ever driven but as
an output. -/
theorem panel_agrees_with_pins (clock : κ) (pins : Vector π 4) (settings : Settings)
    (hpins : ∀ channel : Channel, Pin.direction (channel.valueIn pins) = .input)
    (history : List (Event κ π)) (hhistory : ∀ event ∈ history, event.KeepsDriving) :
    let c := run history (boot clock pins settings)
    let watched := run (history.map Event.watched) (boot clock (pins.map Watched.start) settings)
    watched.mapPins Watched.pin = c ∧ ∀ channel,
      c.panel.direction channel = Pin.direction (c.pin channel) ∧
      (c.panel.direction channel = .input → c.panel.level channel = false) ∧
      (c.panel.direction channel = .output →
        Pin.isSetHigh (c.pin channel) = c.panel.level channel ∧
        (watched.pin channel).drives.getLast? = some ⟨.output, c.panel.level channel⟩ ∧
        handlers.perform (.readChannel channel) c =
          .ok (some [(Reading.ofLevel (Pin.isSetHigh (c.pin channel))).symbol]) c) ∧
      ∀ drive ∈ (watched.pin channel).drives, drive.direction = .output := by
  intro c watched
  have hsame : watched.mapPins Watched.pin = c := run_watched clock pins settings history
  have hagrees : AllChannels ChannelState.Agrees settings watched :=
    allChannels_watched clock settings hpins hhistory
  refine ⟨hsame, fun channel => ?_⟩
  have hchannel := hagrees.channels channel
  rw [← hsame, pin_mapPins]
  refine ⟨hchannel.direction, hchannel.low, fun houtput => ?_, hchannel.drives⟩
  have hlevel : Pin.isSetHigh (watched.pin channel).pin = watched.panel.level channel :=
    hchannel.level houtput
  refine ⟨hlevel, hchannel.last houtput, ?_⟩
  rw [perform_readChannel, reading, houtput, hlevel]
  rfl

/-- The settings want the first and the last channel to be outputs, but the last pin cannot drive,
neither at boot nor when the host asks for it. The first is high when the reset comes. -/
theorem panel_agrees_with_pins_refused :
    let settings : Settings :=
      { Settings.standard with directions := #v[.output, .input, .input, .output] }
    let pins : Vector Bench.Pin 4 :=
      #v[.start, .start, .start, { Bench.Pin.start with canDrive := false }]
    let clock : SoftClock := ⟨some 1438452420, 0⟩
    let history : List (Event SoftClock Bench.Pin) :=
      [.pin 1 fun pin => { pin with input := some true }, .request (.setTrigger 0 "1"),
        .request (.setDirection 3 .output), .tick, .request .reset]
    let c := run history (boot clock pins settings)
    let watched := run (history.map Event.watched) (boot clock (pins.map Watched.start) settings)
    (∀ channel : Channel, Pin.direction (channel.valueIn pins) = .input) ∧
      (∀ event ∈ history, event.KeepsDriving) ∧
      (∀ channel, c.panel.direction channel = Pin.direction (c.pin channel)) ∧
      c.panel.directions = #v[.output, .input, .input, .input] ∧
      (watched.pin 0).drives = [⟨.output, false⟩, ⟨.output, true⟩, ⟨.output, false⟩] ∧
      (watched.pin 3).drives = [] := by
  intro settings pins clock history c watched
  have hpins : ∀ channel : Channel, Pin.direction (channel.valueIn pins) = .input := by decide
  have hhistory : ∀ event ∈ history, event.KeepsDriving := by
    simp only [history, List.forall_mem_cons]
    exact ⟨fun _ => ⟨rfl, rfl⟩, trivial, trivial, trivial, trivial, nofun⟩
  obtain ⟨-, hagrees⟩ := panel_agrees_with_pins clock pins settings hpins history hhistory
  exact ⟨hpins, hhistory, fun channel => (hagrees channel).1, by decide +kernel, by decide +kernel,
    by decide +kernel⟩

end Controller

end TimeSwitch.Device
