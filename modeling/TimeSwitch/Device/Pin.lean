import TimeSwitch.Channel

/-!
The pin behind a channel, which is read or driven as its direction says. Any pin may be fitted:
it may refuse a direction and it may fail to be read, but it can always be driven.
-/

namespace TimeSwitch.Device

inductive PinFault
  /-- The pin cannot take the direction. -/
  | unsupported
  /-- The pin does not answer. -/
  | hardware
  deriving DecidableEq, Repr

class Pin (π : Type) where
  isHigh : π → Except PinFault Bool
  setHigh : π → π
  setLow : π → π
  /-- The level that the pin is driven to. -/
  isSetHigh : π → Bool
  setDirection : Direction → EStateM PinFault π Unit
  direction : π → Direction

namespace Pin

variable {π : Type} [Pin π]

def isLow (pin : π) : Except PinFault Bool :=
  (!·) <$> isHigh pin

def setLevel (high : Bool) (pin : π) : π :=
  if high then setHigh pin else setLow pin

end Pin

end TimeSwitch.Device
