import TimeSwitch.Toml.Scalar
import TimeSwitch.Toml.Token

/-!
The statements of a TOML document: headers of tables, and keys with their values. A statement is
a line, except that a line goes on while a bracket or brace is open. Between braces, line ends and
comments may stand around a key and around its value, but not inside a key.
-/

namespace TimeSwitch.Toml

/-- A key with dots: the tables it leads through and the last part. -/
structure KeyPath where
  path : List String
  key : String

/-- The header of a table, or of one more element of an array of tables. -/
structure Header where
  inArray : Bool
  key : KeyPath

inductive Statement
  | header (h : Header)
  | assign (key : KeyPath) (value : Value)

/-- How deep brackets and braces may nest, and how many parts a key may have. -/
def nestingLimit : Nat := 80

/-- Part of a statement: a token, or a value that has been put together. -/
inductive Piece
  | token (t : Token)
  | value (v : Value)

namespace Piece

def isBlank : Piece → Bool
  | token (.blank _) => true
  | _ => false

/-- Anything that may stand around the values of an array and around keys between braces. -/
def isSpace : Piece → Bool
  | token (.blank _) | token .lineEnd | token .comment => true
  | _ => false

def isEquals : Piece → Bool
  | token .equals => true
  | _ => false

/-- Drops pieces at both ends. -/
def trim (drop : Piece → Bool) (pieces : List Piece) : List Piece :=
  ((pieces.dropWhile drop).reverse.dropWhile drop).reverse

/-- The parts between commas, without the space around them. A comma may stand after the last
part. -/
def parts (pieces : List Piece) : List (List Piece) :=
  let all := pieces.foldr
    (fun piece parts => match piece, parts with
      | token .comma, _ => [] :: parts
      | _, [] => [[piece]]
      | _, part :: parts => (piece :: part) :: parts)
    [[]]
  let all := all.map (trim isSpace)
  match all.getLast? with
  | some [] => all.dropLast
  | _ => all

/-- The characters of an unquoted value, which goes on over dots and blanks as long as words
follow. -/
def unquoted? : Piece → Option (List Char)
  | token (.word cs) => some cs
  | token .dot => some ['.']
  | token (.blank cs) => some cs
  | _ => none

/-- The value that pieces make. -/
def value? : List Piece → Option Value
  | [] => none
  | [value v] => some v
  | [token (.quoted text _)] => some (.string (String.ofList text))
  | pieces => do Scalar.ofText? (← pieces.mapM unquoted?).flatten

/-- A bare key or a quoted string of one line. -/
def simpleKey? : Piece → Option String
  | token (.word cs) =>
    if cs.all fun c => c.isAlphanum || c == '_' || c == '-' then some (String.ofList cs) else none
  | token (.quoted text false) => some (String.ofList text)
  | _ => none

/-- Keys with dots between them. -/
def dottedKeys? : List Piece → Option (List String)
  | [] => none
  | [piece] => do return [← simpleKey? piece]
  | piece :: token .dot :: rest => do return (← simpleKey? piece) :: (← dottedKeys? rest)
  | _ => none

def keyPath? (pieces : List Piece) : Option KeyPath := do
  let keys ← dottedKeys? (pieces.filter (!·.isBlank))
  if nestingLimit < keys.length then none
  return ⟨keys.dropLast, ← keys.getLast?⟩

/-- A key with its value. -/
def assignment? (pieces : List Piece) : Option (KeyPath × Value) := do
  let key ← keyPath? (trim isSpace (pieces.takeWhile (!·.isEquals)))
  match pieces.dropWhile (!·.isEquals) with
  | [] => none
  | _ :: rest => return (key, ← value? (trim isSpace rest))

/-- The array between brackets. -/
def array? (pieces : List Piece) : Option Value := do
  return .array false (← (parts pieces).mapM value?)

/-- The table between braces. -/
def inlineTable? (pieces : List Piece) : Option Value := do
  let table ← (parts pieces).foldlM
    (fun table part => do
      let (key, v) ← assignment? part
      table.add key.path key.key v)
    (Table.new .inline)
  return table.toValue

/-- Brackets or braces that are open, with the pieces before them, the last one first. -/
structure Open where
  brace : Bool
  before : List Piece

/-- Puts together all that stands in brackets and braces. The pieces read so far come with the
last one first. -/
def assemble : List Token → List Open → List Piece → Option (List Piece)
  | [], [], pieces => some pieces.reverse
  | [], _ :: _, _ => none
  | t :: rest, opened, pieces =>
    match t, opened with
    | .openBracket, _ =>
      if opened.length < nestingLimit then assemble rest (⟨false, pieces⟩ :: opened) [] else none
    | .openBrace, _ =>
      if opened.length < nestingLimit then assemble rest (⟨true, pieces⟩ :: opened) [] else none
    | .closeBracket, ⟨false, before⟩ :: opened => do
      assemble rest opened (value (← array? pieces.reverse) :: before)
    | .closeBrace, ⟨true, before⟩ :: opened => do
      assemble rest opened (value (← inlineTable? pieces.reverse) :: before)
    | .closeBracket, _ | .closeBrace, _ => none
    | t, _ => assemble rest opened (token t :: pieces)

end Piece

namespace Statement

/-- Splits tokens at the line ends that no bracket or brace encloses. -/
def split (depth : Nat) : List Token → List (List Token)
  | [] => [[]]
  | t :: rest =>
    match t, depth with
    | .lineEnd, 0 => [] :: split 0 rest
    | _, _ =>
      let depth := match t with
        | .openBracket | .openBrace => depth + 1
        | .closeBracket | .closeBrace => depth - 1
        | _ => depth
      match split depth rest with
      | [] => [[t]]
      | line :: lines => (t :: line) :: lines

/-- A token that says nothing at the end of a statement. -/
def isIdle : Token → Bool
  | .blank _ | .comment => true
  | _ => false

/-- A statement without blanks and comments around it. -/
def trimmed (tokens : List Token) : List Token :=
  ((tokens.dropWhile isIdle).reverse.dropWhile isIdle).reverse

/-- The key of a header, given what follows its opening brackets. -/
def headerKey? (closing : List Token) (tokens : List Token) : Option KeyPath :=
  if closing.isSuffixOf tokens then
    Piece.keyPath? ((tokens.take (tokens.length - closing.length)).map .token)
  else none

/-- The statement that tokens make. -/
def ofTokens? : List Token → Option Statement
  | .openBracket :: .openBracket :: rest =>
    return .header ⟨true, ← headerKey? [.closeBracket, .closeBracket] rest⟩
  | .openBracket :: rest => return .header ⟨false, ← headerKey? [.closeBracket] rest⟩
  | tokens => do
    let (key, value) ← Piece.assignment? (← Piece.assemble tokens [] [])
    return .assign key value

/-- The statements of a document, in order. -/
def all? (document : List Char) : Option (List Statement) := do
  let lines := (split 0 (← Token.all document)).map trimmed
  (lines.filter (!·.isEmpty)).mapM ofTokens?

end Statement

end TimeSwitch.Toml
