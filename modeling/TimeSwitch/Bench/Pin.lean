import TimeSwitch.Device.Pin

/-!
A pin on a bench. Its input level is set by hand, or it is cut off so that reading it fails, and
it may be made unable to drive. Turning it round does not change the level it was driven to.
-/

namespace TimeSwitch.Bench

open Device

structure Pin where
  /-- The level put on the pin, or none if it is cut off. -/
  input : Option Bool
  driven : Bool
  direction : Direction
  /-- Whether the pin can be an output. -/
  canDrive : Bool
  deriving DecidableEq, Repr

namespace Pin

/-- A low input that is able to drive. -/
def start : Pin := ⟨some false, false, .input, true⟩

def setDirection (direction : Direction) : EStateM PinFault Pin Unit := fun pin =>
  if direction = .output ∧ pin.canDrive = false then .error .unsupported pin
  else .ok () { pin with direction }

instance : Device.Pin Pin where
  isHigh pin := match pin.input with
    | some high => .ok high
    | none => .error .hardware
  setHigh pin := { pin with driven := true }
  setLow pin := { pin with driven := false }
  isSetHigh pin := pin.driven
  setDirection := setDirection
  direction pin := pin.direction

end Pin

end TimeSwitch.Bench
