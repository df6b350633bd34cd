import TimeSwitch.Channel
import TimeSwitch.Formula.Expression

/-!
Triggers: the formulas that drive the outputs, stored as text. A trigger that is stored on
request has to fit its slot and to parse.
-/

namespace TimeSwitch.Device

/-- The octets that a trigger may take. -/
def triggerLimit : Nat := 30

/-- The trigger of each channel, if it has one. -/
abbrev Triggers := Slots 4 String

inductive TriggerFault
  | tooLong
  | formula (fault : Formula.Fault)
  deriving DecidableEq, Repr

/-- The fault of a text that cannot be a trigger; its length is looked at first. -/
def triggerFault? (text : String) : Option TriggerFault :=
  if triggerLimit < text.utf8ByteSize then some .tooLong
  else match Formula.Expression.parse text with
    | .ok _ => none
    | .error fault => some (.formula fault)

/-- Stores a text that fits, whatever it says. -/
def Triggers.store? (triggers : Triggers) (channel : Channel) (text : String) :
    Option Triggers :=
  if text.utf8ByteSize ≤ triggerLimit then some (triggers.put channel text) else none

end TimeSwitch.Device
