import TimeSwitch.Calendar.CivilTime
import TimeSwitch.Text.Octets

/-!
Reading the body of a message field by field. A reader keeps its place when it fails: a field
that is too short is not entered, a field that is refused for its contents has been passed.
-/

namespace TimeSwitch.Wire

/-- Why a message is no request. -/
inductive DecodeFault
  | empty
  | tooLong
  | unknownTag (tag : UInt8)
  /-- A separator, digit or word that is not there, or something left over. -/
  | format
  /-- A number out of its range. -/
  | range
  /-- Numbers in range that make no date. -/
  | calendar (defect : CalendarDefect)
  deriving DecidableEq, Repr

/-- The part of a body still to be read, and how much has been read before it. -/
structure Body where
  rest : Octets
  position : Nat
  deriving DecidableEq, Repr

def Body.start (octets : Octets) : Body := ⟨octets, 0⟩

/-- Reads from a body; a failed reading leaves a body, too. -/
abbrev Reader (α : Type) := EStateM DecodeFault Body α

/-- What an octet stands for as a decimal digit. -/
def digitOf (b : UInt8) : Except DecodeFault Nat :=
  if 48 ≤ b && b ≤ 57 then .ok (b.toNat - 48) else .error .format

/-- Refuses a number outside its range. -/
def inRange (low high n : Nat) : Except DecodeFault Nat :=
  if low ≤ n ∧ n ≤ high then .ok n else .error .range

/-- One to four digits as a number. -/
def decimal (digits : Octets) : Except DecodeFault Nat :=
  if digits.isEmpty || 4 < digits.length then .error .format
  else digits.foldlM (fun n b => do return n * 10 + (← digitOf b)) 0

namespace Reader

/-- Carries on with a value worked out apart from the body. -/
def lift (value : Except DecodeFault α) : Reader α :=
  fun body => match value with
    | .ok a => .ok a body
    | .error fault => .error fault body

/-- Takes exactly `n` octets. -/
def take (n : Nat) : Reader Octets := fun body =>
  if n ≤ body.rest.length then .ok (body.rest.take n) ⟨body.rest.drop n, body.position + n⟩
  else .error .format body

/-- The next octet, which is not taken. -/
def peek : Reader (Option UInt8) := fun body => .ok body.rest.head? body

/-- What is left, which is not taken. -/
def rest : Reader Octets := fun body => .ok body.rest body

/-- Takes the octet `b` if it is next, and says whether it was. -/
def accept (b : UInt8) : Reader Bool := fun body =>
  match body.rest with
  | [] => .ok false body
  | next :: rest => if next == b then .ok true ⟨rest, body.position + 1⟩ else .ok false body

/-- Takes the octet `b`, which must be next. -/
def expect (b : UInt8) : Reader Unit := do
  unless ← accept b do throw .format

/-- A single digit as a number within a range. -/
def digit (low high : Nat) : Reader Nat := do
  match ← take 1 with
  | [a] => lift (do inRange low high (← digitOf a))
  | _ => throw .format

/-- Two digits as a number within a range. -/
def twoDigits (low high : Nat) : Reader Nat := do
  match ← take 2 with
  | [a, b] => lift (do inRange low high ((← digitOf a) * 10 + (← digitOf b)))
  | _ => throw .format

/-- The three letters of a weekday. -/
def weekday : Reader Weekday := do
  match Weekday.ofAbbreviation? (Octets.toText (← take 3)) with
  | some day => return day
  | none => throw .format

/-- Fails unless everything has been read. -/
def finish : Reader Unit := fun body =>
  if body.rest.isEmpty then .ok () body else .error .format body

end Reader

end TimeSwitch.Wire
