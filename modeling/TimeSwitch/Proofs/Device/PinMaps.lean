import TimeSwitch.Proofs.Device.Channels
import TimeSwitch.Proofs.Device.Histories
import TimeSwitch.Proofs.Wire.Views

/-!
Pins that behave like other pins. Where a map from the one kind of pin to the other goes along
with all that is done to a pin, a controller of the first kind goes along with one of the second:
whatever happens to the two, the map takes the pins of the one to the pins of the other, and all
else is the same.
-/

namespace TimeSwitch

theorem Channel.valueIn_map {α β : Type} (channel : Channel) (f : α → β) (values : Vector α 4) :
    channel.valueIn (values.map f) = f (channel.valueIn values) := by
  simp [valueIn]

theorem Channel.update_map {α β : Type} (channel : Channel) (f : α → β) (value : α)
    (values : Vector α 4) :
    channel.update (f value) (values.map f) = (channel.update value values).map f := by
  simp [update, Vector.map_set]

namespace Device

open Sequence Wire

/-- What is done to a pin is done to its image, and the two read alike. -/
structure PinMap {π ρ : Type} [Pin π] [Pin ρ] (f : π → ρ) : Prop where
  isHigh : ∀ pin, Pin.isHigh (f pin) = Pin.isHigh pin
  setHigh : ∀ pin, Pin.setHigh (f pin) = f (Pin.setHigh pin)
  setLow : ∀ pin, Pin.setLow (f pin) = f (Pin.setLow pin)
  setDirection : ∀ direction, Commutes f (Pin.setDirection direction) (Pin.setDirection direction)

theorem PinMap.setLevel {π ρ : Type} [Pin π] [Pin ρ] {f : π → ρ} (hf : PinMap f) (high : Bool)
    (pin : π) : Pin.setLevel high (f pin) = f (Pin.setLevel high pin) := by
  cases high with
  | true => exact hf.setHigh pin
  | false => exact hf.setLow pin

namespace Controller

variable {κ π ρ : Type} {f : π → ρ}

/-- The controller with the image of each pin. -/
def mapPins (f : π → ρ) (c : Controller κ π) : Controller κ ρ := { c with pins := c.pins.map f }

theorem pin_mapPins (c : Controller κ π) (channel : Channel) :
    (c.mapPins f).pin channel = f (c.pin channel) :=
  channel.valueIn_map f c.pins

/-- A controller that differs in one pin and in its panel. -/
theorem mapPins_update (c : Controller κ π) (channel : Channel) (pin : π) (panel : Panel) :
    { c.mapPins f with pins := channel.update (f pin) (c.mapPins f).pins, panel } =
      mapPins f { c with pins := channel.update pin c.pins, panel } := by
  simp only [mapPins, channel.update_map]

/-! ### What has no use for the pins -/

theorem commutes_onClock {α : Type} (action : EStateM ClockFault κ α) :
    Commutes (mapPins f) (onClock action : Action (Controller κ π) α) (onClock action) := by
  intro c
  have hclock : (c.mapPins f).clock = c.clock := rfl
  rw [onClock, onClock, hclock]
  cases action c.clock <;> rfl

theorem commutes_setTrigger (channel : Channel) (text : String) :
    Commutes (mapPins f) (setTrigger channel text : Action (Controller κ π) Unit)
      (setTrigger channel text) := by
  intro c
  have hsession : (c.mapPins f).session = c.session := rfl
  rw [setTrigger_eq, setTrigger_eq, hsession]
  split
  · rfl
  · split <;> rfl

theorem commutes_send (reply : Octets) :
    Commutes (mapPins f) (send reply : Action (Controller κ π) Unit) (send reply) := by
  intro c
  rw [send, send]
  split <;> rfl

/-! ### Directions -/

variable [Pin π] [Pin ρ]

theorem commutes_setDirection (hf : PinMap f) (channel : Channel) (direction : Direction) :
    Commutes (mapPins (κ := κ) f) (setDirection channel direction)
      (setDirection channel direction) := by
  intro c
  rw [setDirection, setDirection, pin_mapPins, hf.setDirection]
  cases Pin.setDirection direction (c.pin channel) with
  | error fault pin => exact congrArg (EStateM.Result.error _) (c.mapPins_update channel pin _)
  | ok _ pin =>
      cases direction with
      | input => exact congrArg (EStateM.Result.ok ()) (c.mapPins_update channel pin _)
      | output =>
          simp only [mapState, hf.setLow]
          exact congrArg (EStateM.Result.ok ()) (c.mapPins_update channel (Pin.setLow pin) _)

theorem restoreChannel_mapPins (hf : PinMap f) (c : Controller κ π) (channel : Channel) :
    (c.mapPins f).restoreChannel channel = (c.restoreChannel channel).mapPins f := by
  have h := commutes_setDirection hf channel (channel.valueIn c.settings.directions) c
  simp only [restoreChannel_eq]
  exact (congrArg stateOf h).trans (stateOf_mapState _)

theorem restore_mapPins (hf : PinMap f) (c : Controller κ π) :
    (c.mapPins f).restore = c.restore.mapPins f := by
  have hchannels : ∀ (channels : List Channel) (c : Controller κ π),
      channels.foldl restoreChannel (c.mapPins f) =
        (channels.foldl restoreChannel c).mapPins f := by
    intro channels
    induction channels with
    | nil => exact fun _ => rfl
    | cons channel channels ih =>
        intro c
        rw [List.foldl_cons, List.foldl_cons, restoreChannel_mapPins hf, ih]
  exact hchannels Channel.all { c with triggers := c.settings.triggers }

theorem boot_mapPins (hf : PinMap f) (clock : κ) (pins : Vector π 4) (settings : Settings) :
    boot clock (pins.map f) settings = (boot clock pins settings).mapPins f :=
  restore_mapPins hf ⟨clock, pins, settings, .empty, .empty, .start, .start, none⟩

theorem reset_mapPins (hf : PinMap f) (c : Controller κ π) :
    (c.mapPins f).reset = c.reset.mapPins f :=
  restore_mapPins hf { c with alarms := .empty }

/-! ### Levels -/

theorem reading_mapPins (hf : PinMap f) (c : Controller κ π) (channel : Channel) :
    (c.mapPins f).reading channel = c.reading channel := by
  rw [reading, reading, pin_mapPins, hf.isHigh]
  rfl

theorem snapshot_mapPins (hf : PinMap f) (c : Controller κ π) :
    (c.mapPins f).snapshot = c.snapshot := by
  simp only [snapshot, reading_mapPins hf]
  rfl

theorem driveChannel_mapPins (hf : PinMap f) (snapshot : Snapshot) (channel : Channel)
    (c : Controller κ π) :
    driveChannel snapshot channel (c.mapPins f) =
      ((driveChannel snapshot channel c).1, (driveChannel snapshot channel c).2.mapPins f) := by
  have hpanel : (c.mapPins f).panel = c.panel := rfl
  rw [driveChannel, driveChannel, hpanel]
  cases c.panel.direction channel with
  | input => rfl
  | output =>
      -- the pin first: once `mapPins` is unfolded it can no longer be read off
      simp only [pin_mapPins, hf.setLevel]
      simp only [mapPins, channel.update_map]

theorem driveChannels_mapPins (hf : PinMap f) (snapshot : Snapshot) (channels : List Channel)
    (c : Controller κ π) :
    driveChannels snapshot channels (c.mapPins f) =
      ((driveChannels snapshot channels c).1,
        (driveChannels snapshot channels c).2.mapPins f) := by
  induction channels generalizing c with
  | nil => rfl
  | cons channel channels ih =>
      simp only [driveChannels, driveChannel_mapPins hf, ih]

variable [Clock κ]

theorem commutes_tick (hf : PinMap f) :
    Commutes (mapPins (κ := κ) f) tick tick := by
  intro c
  have hclock : (c.mapPins f).clock = c.clock := rfl
  rw [tick_eq, tick_eq, hclock]
  cases Clock.now c.clock with
  | error fault clock => rfl
  | ok now clock =>
      have hmoved : (c.mapPins f).moveTo now clock = (c.moveTo now clock).mapPins f := rfl
      simp only [hmoved, snapshot_mapPins hf, driveChannels_mapPins hf]
      rfl

/-! ### Requests -/

theorem seenAs_mapPins (hf : PinMap f) :
    Handlers.SeenAs (mapPins f) (handlers : Handlers (Controller κ π)) handlers where
  setClock _ := commutes_onClock _
  readClock := commutes_onClock _
  setAlarm _ _ := commutes_modify fun _ => rfl
  clearAlarm _ := commutes_modify fun _ => rfl
  setTrigger := commutes_setTrigger
  clearTrigger _ := commutes_modify fun _ => rfl
  setDirection := commutes_setDirection hf
  readChannel channel c := congrArg (EStateM.Result.ok · _) (reading_mapPins hf c channel)
  reset := commutes_modify (reset_mapPins hf)
  send := commutes_send

theorem handled_mapPins (hf : PinMap f) (line : Octets) (c : Controller κ π) :
    handled line (c.mapPins f) = (handled line c).mapPins f := by
  have hstart : (Dispatcher.start c).map (mapPins f) = .start (c.mapPins f) := rfl
  rw [handled, handled, ← hstart, (seenAs_mapPins hf).exchange line (.start c), stateOf_mapState,
    Dispatcher.device_map]

/-! ### Whatever happens -/

/-- The event with what is done to a pin from outside done to another kind of pin. -/
def Event.withPins (lift : (ρ → ρ) → π → π) : Event κ ρ → Event κ π
  | line tag body => line tag body
  | request r => request r
  | tick => tick
  | take => take
  | clock change => clock change
  | pin channel change => pin channel (lift change)

variable {lift : (ρ → ρ) → π → π}

theorem act_mapPins (hf : PinMap f) (hlift : ∀ change pin, f (lift change pin) = change (f pin))
    (event : Event κ ρ) (c : Controller κ π) :
    event.act (c.mapPins f) = ((event.withPins lift).act c).mapPins f := by
  cases event with
  | line tag body => exact handled_mapPins hf (tag :: body) c
  | request r =>
      have hperform := (seenAs_mapPins hf).perform r c
      exact (congrArg stateOf hperform).trans (stateOf_mapState _)
  | tick => exact (congrArg stateOf (commutes_tick hf c)).trans (stateOf_mapState _)
  | take | clock change => rfl
  | pin channel change =>
      simp only [Event.act, Event.withPins, pin_mapPins, ← hlift]
      simp only [mapPins, channel.update_map]

theorem run_mapPins (hf : PinMap f) (hlift : ∀ change pin, f (lift change pin) = change (f pin))
    (events : List (Event κ ρ)) (c : Controller κ π) :
    run events (c.mapPins f) = (run (events.map (Event.withPins lift)) c).mapPins f := by
  induction events generalizing c with
  | nil => rfl
  | cons event events ih =>
      exact (congrArg (run events) (act_mapPins hf hlift event c)).trans (ih _)

end Controller

end Device

end TimeSwitch
