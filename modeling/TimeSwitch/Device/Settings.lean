import TimeSwitch.Device.Source
import TimeSwitch.Device.Trigger

/-!
What the device is set up to be when it starts: the directions of its channels, the sources of
its signals and the triggers it has from the beginning. Settings are made from entries, where a
later entry for the same place wins over an earlier one.
-/

namespace TimeSwitch.Device

structure Settings where
  directions : Vector Direction 4
  sources : SourceMap
  triggers : Triggers
  deriving DecidableEq

/-- All channels inputs, the standard sources and no triggers. -/
def Settings.standard : Settings :=
  ⟨Vector.replicate 4 .input, .standard, .empty⟩

/-- The kinds of source that an entry may name. -/
inductive SourceKind
  | input | alarm | always | never
  deriving DecidableEq, Repr

structure DirectionEntry where
  channel : Nat
  direction : Direction
  deriving DecidableEq, Repr

structure SourceEntry where
  signal : Nat
  kind : SourceKind
  index : Nat
  deriving DecidableEq, Repr

structure TriggerEntry where
  channel : Nat
  formula : String
  deriving DecidableEq, Repr

/-- Entries as they are written down, with numbers not checked yet. -/
structure Entries where
  directions : List DirectionEntry := []
  sources : List SourceEntry := []
  triggers : List TriggerEntry := []
  deriving DecidableEq, Repr

inductive SettingsFault
  /-- The document is not well formed or its entries have the wrong shape. -/
  | document
  /-- A number that names no channel or alarm slot. -/
  | invalidIndex (n : Nat)
  | invalidSignal (n : Nat)
  | trigger (fault : TriggerFault)
  /-- More directions or triggers than there are channels. -/
  | tooManyEntries
  deriving DecidableEq, Repr

namespace Settings

def channelOf (n : Nat) : Except SettingsFault Channel :=
  match Channel.ofNat? n with
  | some channel => .ok channel
  | none => .error (.invalidIndex n)

/-- The source of an entry; the index only counts where there is something to index. -/
def sourceOf (entry : SourceEntry) : Except SettingsFault Source :=
  match entry.kind with
  | .input => .input <$> channelOf entry.index
  | .alarm => match AlarmSlot.ofNat? entry.index with
    | some slot => .ok (.alarm slot)
    | none => .error (.invalidIndex entry.index)
  | .always => .ok .always
  | .never => .ok .never

def addDirection (settings : Settings) (entry : DirectionEntry) :
    Except SettingsFault Settings := do
  let channel ← channelOf entry.channel
  return { settings with
    directions := channel.update entry.direction settings.directions }

def addSource (settings : Settings) (entry : SourceEntry) : Except SettingsFault Settings :=
  match Signal.ofNat? entry.signal with
  | none => .error (.invalidSignal entry.signal)
  | some s => do return { settings with sources := settings.sources.set s (← sourceOf entry) }

def addTrigger (settings : Settings) (entry : TriggerEntry) :
    Except SettingsFault Settings := do
  let channel ← channelOf entry.channel
  match triggerFault? entry.formula with
  | some fault => throw (.trigger fault)
  | none => return { settings with triggers := settings.triggers.put channel entry.formula }

/-- The settings that entries make, or the first thing wrong with them: their numbers, then the
directions, the sources and the triggers, each in order. -/
def ofEntries (entries : Entries) : Except SettingsFault Settings := do
  if 4 < entries.directions.length ∨ 4 < entries.triggers.length then throw .tooManyEntries
  let settings ← entries.directions.foldlM addDirection .standard
  let settings ← entries.sources.foldlM addSource settings
  entries.triggers.foldlM addTrigger settings

end Settings

end TimeSwitch.Device
