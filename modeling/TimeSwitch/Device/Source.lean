import TimeSwitch.Alarm.Slots
import TimeSwitch.Channel
import TimeSwitch.Formula.Signal

/-!
Where the signals of formulas come from. A snapshot holds what every source showed at one
moment, so all formulas of a tick see the same state.
-/

namespace TimeSwitch.Device

inductive Source
  | input (channel : Channel)
  /-- Whether an alarm is active. -/
  | alarm (slot : AlarmSlot)
  | always
  | never
  deriving DecidableEq, Repr

/-- The source of every signal. -/
structure SourceMap where
  sources : Vector Source 16
  deriving DecidableEq

namespace SourceMap

def get (map : SourceMap) (s : Signal) : Source := map.sources[s]

def set (map : SourceMap) (s : Signal) (source : Source) : SourceMap :=
  ⟨map.sources.set s source s.isLt⟩

/-- The first four signals read the channels, the others the first twelve alarms. -/
def standard : SourceMap :=
  ⟨Vector.ofFn fun s =>
    if h : s.val < 4 then .input ⟨s.val, h⟩ else .alarm ⟨s.val - 4, by omega⟩⟩

@[simp] theorem get_set_self (map : SourceMap) (s : Signal) (source : Source) :
    (map.set s source).get s = source := by
  simp [set, get]

theorem get_set_of_ne {map : SourceMap} {a b : Signal} {source : Source} (h : a ≠ b) :
    (map.set a source).get b = map.get b := by
  simp [set, get, Vector.getElem_set_ne _ _ (Fin.val_ne_of_ne h)]

end SourceMap

/-- What the sources of the signals showed at one moment. -/
structure Snapshot where
  sources : SourceMap
  input : Channel → Bool
  alarm : AlarmSlot → Bool

/-- The value of a signal at that moment. -/
def Snapshot.value (snapshot : Snapshot) (s : Signal) : Bool :=
  match snapshot.sources.get s with
  | .input channel => snapshot.input channel
  | .alarm slot => snapshot.alarm slot
  | .always => true
  | .never => false

end TimeSwitch.Device
