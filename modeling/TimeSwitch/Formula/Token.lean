import TimeSwitch.Formula.Fault
import TimeSwitch.Formula.Signal

/-!
The tokens of a formula and the scan that finds them one at a time. Blanks between tokens are
skipped and a number takes all the digits that stand together. Every character that is consumed
takes one octet, so positions count octets.
-/

namespace TimeSwitch.Formula

inductive Token
  | and | or | not | openGroup | closeGroup
  | signal (s : Signal)
  | truth (value : Bool)
  deriving DecidableEq, Repr

/-- The token written by a single symbol. -/
def Token.ofSymbol? : Char → Option Token
  | '&' => some .and
  | '|' => some .or
  | '!' => some .not
  | '(' => some .openGroup
  | ')' => some .closeGroup
  | 'T' => some (.truth true)
  | 'F' => some (.truth false)
  | _ => none

/-- A token where it stands in the text. -/
structure Lexeme where
  token : Token
  /-- The character at its position. -/
  symbol : Char
  position : Nat
  deriving DecidableEq, Repr

/-- The characters that may separate tokens. -/
def isBlank (c : Char) : Bool :=
  c == ' ' || c == '\t' || c == '\n' || c == '\x0c' || c == '\r'

/-- The value of a run of digits, given the value of the digits before it. The value stops
growing once it is past 255; the second part says whether digits were left unread. -/
def runValue (value : Nat) : List Char → Nat × Bool
  | [] => (value, false)
  | c :: digits =>
    if 255 < value then (value, true) else runValue (value * 10 + (c.toNat - 48)) digits

/-- The signal that a run of digits names. -/
def signalOfRun (digits : List Char) : Except Fault Signal :=
  let (value, truncated) := runValue 0 digits
  if 255 < value then .error (.numberTooLarge value truncated)
  else match Signal.ofNat? value with
    | some s => .ok s
    | none => .error (.noSuchSignal value)

/-- The text still to be scanned and the position where it starts. -/
structure Cursor where
  rest : List Char
  position : Nat
  deriving DecidableEq, Repr

/-- What stands next in a text. -/
inductive Scanned
  | lexeme (l : Lexeme)
  | fault (f : Fault)
  | endOfText (position : Nat)
  deriving DecidableEq, Repr

namespace Cursor

def start (text : List Char) : Cursor := ⟨text, 0⟩

/-- Moves past `taken`, which stands in front. -/
def skip (c : Cursor) (taken : List Char) : Cursor :=
  ⟨c.rest.drop taken.length, c.position + taken.length⟩

def skipBlanks (c : Cursor) : Cursor :=
  c.skip (c.rest.takeWhile isBlank)

/-- The next token and where to go on. A number is passed over even when it is refused; a stray
character is not. -/
def next (c : Cursor) : Scanned × Cursor :=
  let here := c.skipBlanks
  match here.rest with
  | [] => (.endOfText here.position, here)
  | symbol :: _ =>
    if symbol.isDigit then
      let digits := here.rest.takeWhile Char.isDigit
      match signalOfRun digits with
      | .ok s => (.lexeme ⟨.signal s, symbol, here.position⟩, here.skip digits)
      | .error fault => (.fault fault, here.skip digits)
    else match Token.ofSymbol? symbol with
      | some token => (.lexeme ⟨token, symbol, here.position⟩, here.skip [symbol])
      | none => (.fault (.stray symbol here.position), here)

@[simp] theorem length_rest_skip (c : Cursor) (taken : List Char) :
    (c.skip taken).rest.length = c.rest.length - taken.length := by
  simp [skip]

theorem length_rest_skipBlanks_le (c : Cursor) :
    c.skipBlanks.rest.length ≤ c.rest.length := by
  simp [skipBlanks]

/-- A token takes at least one character. -/
theorem length_rest_next_lt {c : Cursor} {l : Lexeme} (h : c.next.1 = .lexeme l) :
    c.next.2.rest.length < c.rest.length := by
  have hle := c.length_rest_skipBlanks_le
  unfold next at h ⊢
  dsimp only at h ⊢
  generalize c.skipBlanks = here at hle h ⊢
  obtain ⟨_ | ⟨symbol, rest⟩, position⟩ := here
  · simp at h
  · simp only at h ⊢
    split at h
    · rename_i hd
      simp only [hd, if_true]
      split at h
      · rename_i s hs
        simp only [length_rest_skip, List.takeWhile_cons, hd, if_true]
        simp at hle ⊢
        omega
      · simp at h
    · rename_i hd
      simp only [if_neg hd]
      split at h
      · rename_i token ht
        simp only [length_rest_skip]
        simp at hle ⊢
        omega
      · simp at h

end Cursor

/-- A whole text scanned: the lexemes in order, and what ends them, which is either the position
where the text ends or the first fault. -/
structure Scan where
  lexemes : List Lexeme
  ending : Except Fault Nat

/-- Scans from the cursor on until the text ends or is at fault. -/
def Cursor.scan (c : Cursor) : Scan :=
  match _h : c.next.1 with
  | .endOfText position => ⟨[], .ok position⟩
  | .fault fault => ⟨[], .error fault⟩
  | .lexeme l =>
    let later := c.next.2.scan
    ⟨l :: later.lexemes, later.ending⟩
termination_by c.rest.length
decreasing_by exact Cursor.length_rest_next_lt ‹_›

end TimeSwitch.Formula
