import TimeSwitch.Slots

/-!
The sixteen signals that a formula may name by number, and a table that binds them to values.
-/

namespace TimeSwitch

/-- A signal, known to formulas by its number. -/
abbrev Signal := Fin 16

namespace Signal

/-- All signals in order. -/
def all : List Signal := List.finRange 16

/-- The signal of that number, if there is one. -/
def ofNat? (n : Nat) : Option Signal :=
  if h : n < 16 then some ⟨n, h⟩ else none

end Signal

/-- Values bound to signals one at a time. -/
abbrev SignalTable := Slots 16 Bool

namespace SignalTable

/-- Binds the signal of a number, which may name none. -/
def bind? (table : SignalTable) (number : Nat) (value : Bool) : Option SignalTable :=
  (Signal.ofNat? number).map fun s => table.put s value

def isBound (table : SignalTable) (s : Signal) : Bool :=
  (table.get? s).isSome

/-- A signal that is not bound reads false. -/
def value (table : SignalTable) (s : Signal) : Bool :=
  (table.get? s).getD false

end SignalTable

end TimeSwitch
