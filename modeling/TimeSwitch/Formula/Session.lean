import TimeSwitch.Formula.Expression
import TimeSwitch.Formula.Workbench

/-!
A session of parsing: texts parsed one after the other, with one store for the nodes and one place
for a message. An expression is read off the store, so it lasts until the next text. Messages have
little room; they are written piece by piece, each as far as it fits.
-/

namespace TimeSwitch.Formula

structure Session where
  /-- The nodes of the last text, as far as it was read. -/
  store : NodeStore
  /-- What the last text came to: the number of its root, or its fault. -/
  outcome : Option (Except Fault Nat)
  succeeded : Bool
  /-- What was wrong with the last text, as far as there is room. -/
  message : List Char

namespace Session

/-- The octets that a message may take. -/
def messageLimit : Nat := 29

/-- No text yet. -/
def start : Session := ⟨.empty, none, false, []⟩

/-- Adds the characters of a piece to a message for as long as they fit. -/
def write (message piece : List Char) : List Char :=
  message ++ Octets.leading (messageLimit - (Octets.ofText message).length) piece

/-- Gives up the nodes and the message of the last text. -/
def clear (session : Session) : Session :=
  { session with store := .empty, message := [] }

def parse (session : Session) (text : String) : Session :=
  let session := session.clear
  match Building.run text.toList session.store with
  | .ok root bench =>
    { session with store := bench.store, outcome := some (.ok root), succeeded := true }
  | .error fault bench =>
    { store := bench.store
      outcome := some (.error fault)
      succeeded := false
      message := fault.pieces.foldl write session.message }

/-- What the last text came to. -/
def last (session : Session) : Option (Except Fault Expression) :=
  session.outcome.map (Except.map (Expression.mk session.store))

def expression? (session : Session) : Option Expression :=
  match session.last with
  | some (.ok e) => some e
  | _ => none

/-- The value of the last text, false if it did not parse. -/
def evaluate (session : Session) (value : Signal → Bool) : Bool :=
  match session.expression? with
  | some e => e.evaluate value
  | none => false

/-- The signals called by evaluating the last text. -/
def calls (session : Session) (value : Signal → Bool) : List Signal :=
  match session.expression? with
  | some e => (e.evaluateTraced value).2
  | none => []

end Session

end TimeSwitch.Formula
