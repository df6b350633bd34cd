import TimeSwitch.Device.Clock
import TimeSwitch.Device.Panel
import TimeSwitch.Device.Pin
import TimeSwitch.Device.Settings
import TimeSwitch.Formula.Session
import TimeSwitch.Wire.Exchange

/-!
The controller: clock, pins, alarms and triggers working together. Requests change it one at a
time; a tick moves all alarms to the current time, takes a snapshot of all sources and then drives
one output after the other to the value of its trigger in that snapshot. All triggers go through
one session of parsing.
-/

namespace TimeSwitch.Device

open Wire

structure Controller (κ π : Type) where
  clock : κ
  pins : Vector π 4
  settings : Settings
  alarms : AlarmSlots
  triggers : Triggers
  panel : Panel
  session : Formula.Session
  /-- A reply that has not been sent yet. -/
  outbox : Option Octets

/-- What came of a tick. -/
structure TickReport where
  now : CivilTime
  /-- The alarms that became active. -/
  fired : Nat
  /-- The alarms that ceased to be active. -/
  expired : Nat
  /-- The outputs whose level changed. -/
  switched : Nat
  deriving DecidableEq, Repr

namespace Controller

variable {κ π : Type}

/-! ### Channels -/

section Pins

variable [Pin π]

def pin (c : Controller κ π) (channel : Channel) : π := channel.valueIn c.pins

/-- Switches a channel over, unless its pin refuses; an output starts low. -/
def setDirection (channel : Channel) (direction : Direction) : Action (Controller κ π) Unit :=
  fun c => match Pin.setDirection direction (c.pin channel) with
    | .error _ pin => .error .rejected { c with pins := channel.update pin c.pins }
    | .ok _ pin =>
      let pin := match direction with
        | .input => pin
        | .output => Pin.setLow pin
      .ok () { c with
        pins := channel.update pin c.pins
        panel := c.panel.setDirection channel direction }

/-- The reading of a channel: an input is sampled, an output shows what it was driven to. -/
def reading (c : Controller κ π) (channel : Channel) : Reading :=
  match c.panel.direction channel with
  | .input => .ofSample (Pin.isHigh (c.pin channel))
  | .output => .ofLevel (c.panel.level channel)

/-- Sets a channel as the settings have it; a refusal leaves it as it is. -/
def restoreChannel (c : Controller κ π) (channel : Channel) : Controller κ π :=
  match setDirection channel (channel.valueIn c.settings.directions) c with
  | .ok _ c => c
  | .error _ c => c

/-- Goes back to the directions and triggers of the settings. -/
def restore (c : Controller κ π) : Controller κ π :=
  Channel.all.foldl restoreChannel { c with triggers := c.settings.triggers }

/-- A controller that has just been switched on. -/
def boot (clock : κ) (pins : Vector π 4) (settings : Settings) : Controller κ π :=
  restore ⟨clock, pins, settings, .empty, .empty, .start, .start, none⟩

/-- Disarms all alarms and goes back to the settings. -/
def reset (c : Controller κ π) : Controller κ π :=
  restore { c with alarms := .empty }

/-! ### The tick -/

/-- What all sources show now. -/
def snapshot (c : Controller κ π) : Snapshot where
  sources := c.settings.sources
  input channel := (c.reading channel).isOn
  alarm := c.alarms.isActive

/-- The level that a text asks for in a snapshot, and the session after it was parsed. No text and
a text that does not parse ask for low. -/
def askedLevel (snapshot : Snapshot) (text : Option String) (session : Formula.Session) :
    Bool × Formula.Session :=
  match text with
  | some text =>
    let session := session.parse text
    (session.evaluate snapshot.value, session)
  | none => (false, session)

/-- Drives an output to the level that its trigger asks for, and says whether that is another
level than before. An input is passed over. -/
def driveChannel (snapshot : Snapshot) (channel : Channel) (c : Controller κ π) :
    Bool × Controller κ π :=
  match c.panel.direction channel with
  | .input => (false, c)
  | .output =>
    let (level, session) := askedLevel snapshot (c.triggers.get? channel) c.session
    (c.panel.level channel != level,
      { c with
        pins := channel.update (Pin.setLevel level (c.pin channel)) c.pins
        panel := c.panel.setLevel channel level
        session })

/-- Drives channels one after the other and counts those whose level changed. -/
def driveChannels (snapshot : Snapshot) :
    List Channel → Controller κ π → Nat × Controller κ π
  | [], c => (0, c)
  | channel :: channels, c =>
    let (changed, c) := c.driveChannel snapshot channel
    let (switched, c) := c.driveChannels snapshot channels
    (changed.toNat + switched, c)

/-- All alarms moved to a time that the clock was read to have. -/
def moveTo (now : CivilTime) (clock : κ) (c : Controller κ π) : Controller κ π :=
  { c with clock, alarms := c.alarms.tick now }

/-- Moves the device to the current time of its clock. The alarms move one after the other and are
counted as they do; the snapshot is taken after the last of them and before the first output is
driven. -/
def tick [Clock κ] : EStateM ClockFault (Controller κ π) TickReport := fun c =>
  match Clock.now c.clock with
  | .error fault clock => .error fault { c with clock }
  | .ok now clock =>
    let ((fired, expired), alarms) := c.alarms.tickEach now AlarmSlot.all
    let moved := { c with clock, alarms }
    let (switched, driven) := moved.driveChannels moved.snapshot Channel.all
    .ok { now, fired, expired, switched } driven

/-- What is counted is what differs between the alarms before and after. -/
theorem tick_eq [Clock κ] (c : Controller κ π) : c.tick =
    match Clock.now c.clock with
    | .error fault clock => .error fault { c with clock }
    | .ok now clock =>
      let moved := c.moveTo now clock
      let driven := moved.driveChannels moved.snapshot Channel.all
      .ok
        { now
          fired := (AlarmSlots.started c.alarms moved.alarms).length
          expired := (AlarmSlots.ended c.alarms moved.alarms).length
          switched := driven.1 }
        driven.2 := by
  rw [tick]
  cases Clock.now c.clock with
  | error fault clock => rfl
  | ok now clock =>
      dsimp only
      rw [AlarmSlots.tickEach_all]
      rfl

end Pins

/-! ### Requests -/

/-- Something done with the clock; its faults count as refusals. -/
def onClock (action : EStateM ClockFault κ α) : Action (Controller κ π) α := fun c =>
  match action c.clock with
  | .ok a clock => .ok a { c with clock }
  | .error _ clock => .error .rejected { c with clock }

def setAlarm (slot : AlarmSlot) (alarm : Alarm) (c : Controller κ π) : Controller κ π :=
  { c with alarms := c.alarms.put slot alarm }

def clearAlarm (slot : AlarmSlot) (c : Controller κ π) : Controller κ π :=
  { c with alarms := c.alarms.clear slot }

/-- Stores a trigger that fits its slot and parses. A text that is too long is not parsed. -/
def setTrigger (channel : Channel) (text : String) : Action (Controller κ π) Unit := fun c =>
  if triggerLimit < text.utf8ByteSize then .error .rejected c
  else
    let session := c.session.parse text
    if session.succeeded then
      match c.triggers.store? channel text with
      | some triggers => .ok () { c with triggers, session }
      | none => .error .rejected { c with session }
    else .error .rejected { c with session }

def clearTrigger (channel : Channel) (c : Controller κ π) : Controller κ π :=
  { c with triggers := c.triggers.clear channel }

/-- Puts a reply into the outbox, in place of any other. -/
def send (reply : Octets) : Action (Controller κ π) Unit := fun c =>
  if reply.length ≤ lineLimit then .ok () { c with outbox := some reply }
  else .error .rejected c

/-- Takes the reply out of the outbox. -/
def takeReply (c : Controller κ π) : Option Octets × Controller κ π :=
  (c.outbox, { c with outbox := none })

/-- How the controller carries requests out. An alarm is armed anew by its request. -/
def handlers [Clock κ] [Pin π] : Handlers (Controller κ π) where
  setClock time := onClock (Clock.set time)
  readClock := onClock Clock.now
  setAlarm slot schedule := modify (setAlarm slot (.ofSchedule schedule))
  clearAlarm slot := modify (clearAlarm slot)
  setTrigger := setTrigger
  clearTrigger channel := modify (clearTrigger channel)
  setDirection := setDirection
  readChannel channel := do return (← get).reading channel
  reset := modify reset
  send := send

end Controller

end TimeSwitch.Device
