import TimeSwitch.Text.Decimal

/-!
What can be wrong with the text of a formula, and how it is put into words. Positions are
offsets in octets from the start of the text.
-/

namespace TimeSwitch.Formula

/-- The nodes that one formula may take. -/
def nodeLimit : Nat := 128

inductive Fault
  /-- A character that no formula contains. -/
  | stray (c : Char) (position : Nat)
  /-- A symbol, or the end of the text, where it may not stand. -/
  | unexpected (symbol : Option Char) (position : Nat)
  /-- A group that is not closed where its expression ends. -/
  | unclosed (position : Nat)
  /-- A number past 255: its leading digits up to the first past it, and whether more follow. -/
  | numberTooLarge (value : Nat) (truncated : Bool)
  /-- A number up to 255 that names no signal. -/
  | noSuchSignal (value : Nat)
  | tooManyNodes
  deriving DecidableEq, Repr

inductive Fault.Kind
  | lexical | syntactic | exhausted
  deriving DecidableEq, Repr

namespace Fault

def kind : Fault → Kind
  | stray .. => .lexical
  | unexpected .. | unclosed .. => .syntactic
  | numberTooLarge .. | noSuchSignal .. | tooManyNodes => .exhausted

private def unexpectedSymbol (c : Char) (position : Nat) : List (List Char) :=
  ["unexpected '".toList, [c], "' at ".toList, Decimal.numeral position]

/-- The fault in words, piece by piece. -/
def pieces : Fault → List (List Char)
  | stray c position => unexpectedSymbol c position
  | unexpected (some c) position => unexpectedSymbol c position
  | unexpected none position => ["unexpected end at ".toList, Decimal.numeral position]
  | unclosed position => ["expected ')' at ".toList, Decimal.numeral position]
  | numberTooLarge value false =>
    ["id ".toList, Decimal.numeral value, " exceeds 255".toList]
  | numberTooLarge value true =>
    ["id ".toList, Decimal.numeral value, "... exceeds 255".toList]
  | noSuchSignal value => ["id ".toList, Decimal.numeral value, " exceeds 15".toList]
  | tooManyNodes => ["node limit ".toList, Decimal.numeral nodeLimit, " exceeded".toList]

/-- The fault in words. -/
def message (fault : Fault) : List Char :=
  fault.pieces.flatten

end Fault

end TimeSwitch.Formula
