import TimeSwitch.Text.Octets

/-!
Lines on the serial link. A line ends at a carriage return or a line feed and holds up to 32
octets of ASCII, none of them zero. A line that breaks the rule is reported once, where it goes
wrong, and skipped to its end; empty lines say nothing.
-/

namespace TimeSwitch.Wire

/-- The octets that one line may hold. -/
def lineLimit : Nat := 32

def isLineEnd (b : UInt8) : Bool :=
  b == 13 || b == 10

/-- The octets that may stand in a line. -/
def isLineOctet (b : UInt8) : Bool :=
  b != 0 && b < 128 && !isLineEnd b

inductive LineFault
  | overflow | invalidOctet
  deriving DecidableEq, Repr

/-- What the framing of a stream reports. -/
inductive LineEvent
  | line (octets : Octets)
  | fault (fault : LineFault)
  deriving DecidableEq, Repr

/-- Where a stream stands: inside a line that is good so far, or skipping a bad one. -/
inductive Framer.Phase
  | collecting | skipping
  deriving DecidableEq, Repr

/-- A phase, and the buffer for the octets of the line. -/
structure Framer where
  phase : Framer.Phase
  held : Octets
  deriving DecidableEq, Repr

namespace Framer

def start : Framer := ⟨.collecting, []⟩

/-- Gives the line up and skips what is left of it. -/
def discard (framer : Framer) : Framer := { framer with phase := .skipping, held := [] }

/-- Takes one octet in. A line is passed on by emptying the buffer. -/
def feed (b : UInt8) (framer : Framer) : Option LineEvent × Framer :=
  match framer.phase with
  | .skipping => (none, if isLineEnd b then { framer with phase := .collecting } else framer)
  | .collecting =>
    if isLineEnd b then
      if framer.held.isEmpty then (none, framer)
      else (some (.line framer.held), { framer with held := [] })
    else if !isLineOctet b then (some (.fault .invalidOctet), framer.discard)
    else if framer.held.length < lineLimit then (none, { framer with held := framer.held ++ [b] })
    else (some (.fault .overflow), framer.discard)

/-- Takes octets in until something is reported; the octets after that are not taken. -/
def feedUntilEvent : Octets → Framer → Option LineEvent × Framer
  | [], framer => (none, framer)
  | b :: rest, framer =>
    match framer.feed b with
    | (some event, framer) => (some event, framer)
    | (none, framer) => feedUntilEvent rest framer

/-- Takes all octets in and lists what is reported, each with the offset of the octet that
brought it about, counted from `offset`. -/
def feedAll (offset : Nat) : Octets → Framer → List (Nat × LineEvent) × Framer
  | [], framer => ([], framer)
  | b :: rest, framer =>
    let (event, framer) := framer.feed b
    let (events, framer) := feedAll (offset + 1) rest framer
    ((event.map (offset, ·)).toList ++ events, framer)

end Framer

end TimeSwitch.Wire
