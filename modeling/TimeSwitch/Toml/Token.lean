import TimeSwitch.Toml.Quoted

/-!
The tokens of a TOML document. Bare keys and unquoted values are both words here; what a word can
be depends on where it stands, so a word may hold any characters but those that end it.
-/

namespace TimeSwitch.Toml

inductive Token
  | blank (cs : List Char)
  | lineEnd
  | comment
  | word (cs : List Char)
  | quoted (text : List Char) (ofLines : Bool)
  | dot | equals | comma
  | openBracket | closeBracket | openBrace | closeBrace
  deriving DecidableEq, Repr

namespace Token

def ofSymbol? : Char → Option Token
  | '.' => some dot
  | '=' => some equals
  | ',' => some comma
  | '[' => some openBracket
  | ']' => some closeBracket
  | '\x7b' => some openBrace
  | '\x7d' => some closeBrace
  | _ => none

/-- The characters of words: all but symbols, blanks, line ends and the mark of a comment. -/
def isWordChar (c : Char) : Bool :=
  (ofSymbol? c).isNone && !Quoted.isBlank c && c != '#' && c != '\r' && c != '\n'

/-- The text ends here, or the line does. -/
def atLineEnd : List Char → Bool
  | [] | '\n' :: _ | '\r' :: '\n' :: _ => true
  | _ => false

/-- What follows a comment, which goes on to the end of its line. -/
def skipComment? (cs : List Char) : Option (List Char) :=
  let rest := cs.dropWhile Quoted.isPrintable
  if atLineEnd rest then some rest else none

/-- A string that was read, as a token. -/
def ofQuoted (ofLines : Bool) : Option (List Char × List Char) → Option (Token × List Char)
  | some (text, rest) => some (quoted text ofLines, rest)
  | none => none

/-- The first token of a text that is not empty, and what follows it. -/
def first? : List Char → Option (Token × List Char)
  | [] => none
  | '\n' :: rest => some (lineEnd, rest)
  | '\r' :: '\n' :: rest => some (lineEnd, rest)
  | '#' :: rest => do return (comment, ← skipComment? rest)
  | '"' :: '"' :: '"' :: rest =>
    ofQuoted true (Quoted.basicLines false (Quoted.dropLineEnd rest))
  | '"' :: rest => ofQuoted false (Quoted.basic rest)
  | '\'' :: '\'' :: '\'' :: rest =>
    ofQuoted true (Quoted.literalLines (Quoted.dropLineEnd rest))
  | '\'' :: rest => ofQuoted false (Quoted.literal rest)
  | c :: rest =>
    if Quoted.isBlank c then
      some (blank (c :: rest.takeWhile Quoted.isBlank), rest.dropWhile Quoted.isBlank)
    else if isWordChar c then
      some (word (c :: rest.takeWhile isWordChar), rest.dropWhile isWordChar)
    else do return (← ofSymbol? c, rest)

/-- All tokens of a text, at most `limit` of them. -/
def upTo : (limit : Nat) → List Char → Option (List Token)
  | _, [] => some []
  | 0, _ => none
  | limit + 1, cs => do
    let (token, rest) ← first? cs
    return token :: (← upTo limit rest)

/-- All tokens of a document, which may begin with a byte order mark. There are no more tokens
than characters. -/
def all (document : List Char) : Option (List Token) :=
  match document with
  | '\ufeff' :: cs => upTo cs.length cs
  | cs => upTo cs.length cs

end Token

end TimeSwitch.Toml
