import TimeSwitch.Calendar.Month
import TimeSwitch.Toml.Quoted
import TimeSwitch.Toml.Value

/-!
Values that are written without quotes: booleans, numbers and times. Floats and times are checked
but not kept, since nothing is made of them.

A badly written number is refused. A well written one is unreadable if it is out of range, an
integer past 128 bits or a float past the largest double; so is an integer whose prefix no digits
follow, and a decimal integer with anything but digits behind its first underscore.
-/

namespace TimeSwitch.Toml.Scalar

/-- The number with the given digits. -/
def ofDigits (base : Nat) (digits : List Char) : Nat :=
  digits.foldl (fun n c => n * base + (Quoted.hexDigit? c).getD 0) 0

def isHexDigit (c : Char) : Bool := (Quoted.hexDigit? c).isSome

def isOctalDigit (c : Char) : Bool := '0' ≤ c && c ≤ '7'

def isBinaryDigit (c : Char) : Bool := c == '0' || c == '1'

/-- The sign in front, if there is one, and what it stands in front of. -/
def splitSign : List Char → Option Char × List Char
  | '-' :: rest => (some '-', rest)
  | '+' :: rest => (some '+', rest)
  | cs => (none, cs)

/-! ### Underscores -/

/-- Every underscore has a digit on its right and a digit on its left; `before` says whether a
digit stands in front of the text. -/
def underscoresFit (isDigit : Char → Bool) : (before : Bool) → List Char → Bool
  | _, [] => true
  | before, '_' :: rest =>
    before && rest.head?.any isDigit && underscoresFit isDigit false rest
  | _, c :: rest => underscoresFit isDigit (isDigit c) rest

def withoutUnderscores (cs : List Char) : List Char :=
  cs.filter (· != '_')

/-! ### Integers -/

/-- The integer with the given digits, readable if it fits into 128 bits with or without a sign.
No base needs more than 128 digits for that. -/
def integer (base : Nat) (negative : Bool) (digits : List Char) : Value :=
  let digits := digits.dropWhile (· == '0')
  if 128 < digits.length then .unreadable
  else
    let size := Int.ofNat (ofDigits base digits)
    let n := if negative then -size else size
    if -Int.ofNat (1 <<< 127) ≤ n ∧ n < Int.ofNat (1 <<< 128) then .integer n else .unreadable

/-- An integer in another base than ten, without its prefix. -/
def baseInteger? (base : Nat) (isDigit : Char → Bool) (cs : List Char) : Option Value :=
  let digits := withoutUnderscores cs
  if !digits.all isDigit || !underscoresFit isDigit false cs then none
  else if digits.isEmpty then some .unreadable
  else some (integer base false digits)

/-- A decimal integer without its sign, which begins with a digit or an underscore. Next to
underscores the letters `a` to `f` count as digits. -/
def decimalInteger? (negative : Bool) (cs : List Char) : Option Value :=
  let digits := withoutUnderscores cs
  if cs.head? == some '0' && 1 < cs.length then none
  else if !underscoresFit isHexDigit false cs then none
  else if !digits.all Char.isDigit then some .unreadable
  else some (integer 10 negative digits)

/-! ### Floats -/

/-- The decimal with the given digits and exponent does not round past the largest double. It is
below ten to the power `size`, and at least a tenth of that. -/
def isFinite (digits : List Char) (exponent : Int) : Bool :=
  let digits := digits.dropWhile (· == '0')
  let size := digits.length + exponent
  if digits.isEmpty || decide (size < 309) then true
  else if 309 < size then false
  else
    let n := ofDigits 10 digits
    let limit := 1 <<< 1024 - 1 <<< 970
    if exponent < 0 then decide (n < limit * Nat.pow 10 (-exponent).toNat)
    else decide (n * Nat.pow 10 exponent.toNat < limit)

def isRunChar (c : Char) : Bool := c.isDigit || c == '_'

/-- The digits of a run of digits and underscores, of which there has to be one. -/
def runDigits? (run : List Char) : Option (List Char) :=
  let digits := withoutUnderscores run
  if digits.isEmpty || !digits.all Char.isDigit then none else some digits

/-- The digits after a point, none if there is no point, and what follows them. -/
def fractionDigits? : List Char → Option (List Char × List Char)
  | '.' :: rest => do return (← runDigits? (rest.takeWhile isRunChar), rest.dropWhile isRunChar)
  | rest => some ([], rest)

/-- The number that the digits of an exponent give, which stops growing once it is past 65535. -/
def exponentSize (digits : List Char) : Nat :=
  digits.foldl (fun n c => if n < 65536 then n * 10 + (c.toNat - 48) else n) 0

/-- The exponent of a float, zero if there is none. -/
def exponent? : List Char → Option Int
  | [] => some 0
  | e :: rest => do
    if e != 'e' && e != 'E' then none
    let (sign, run) := splitSign rest
    let size := exponentSize (← runDigits? run)
    return if sign == some '-' then -size else size

/-- A float without its sign, which begins with a digit or an underscore. -/
def float? (cs : List Char) : Option Value := do
  let whole ← runDigits? (cs.takeWhile isRunChar)
  if cs.head? == some '0' && 1 < whole.length then none
  if !underscoresFit Char.isDigit false cs then none
  let (fraction, rest) ← fractionDigits? (cs.dropWhile isRunChar)
  let exponent ← exponent? rest
  if isFinite (whole ++ fraction) (exponent - fraction.length) then return .float
  else return .unreadable

/-! ### Times -/

/-- A number of exactly two digits, up to a highest one. -/
def twoDigits? (highest : Nat) (a b : Char) : Option Nat :=
  if a.isDigit && b.isDigit && ofDigits 10 [a, b] ≤ highest then some (ofDigits 10 [a, b])
  else none

/-- The last day of a month, counted from one. -/
def lastDay (year month : Nat) : Nat :=
  Calendar.daysInMonth (Calendar.isLeap year) (month - 1)

/-- A date and what follows it. -/
def date? : List Char → Option (List Char)
  | y₁ :: y₂ :: y₃ :: y₄ :: '-' :: m₁ :: m₂ :: '-' :: d₁ :: d₂ :: rest => do
    if !([y₁, y₂, y₃, y₄].all Char.isDigit) then none
    let month ← twoDigits? 12 m₁ m₂
    let day ← twoDigits? (lastDay (ofDigits 10 [y₁, y₂, y₃, y₄]) month) d₁ d₂
    if month == 0 || day == 0 then none
    return rest
  | _ => none

/-- Parts of a second, or nothing. -/
def fraction? : List Char → Option (List Char)
  | '.' :: c :: rest => if c.isDigit then some (rest.dropWhile Char.isDigit) else none
  | '.' :: _ => none
  | rest => some rest

/-- A time of day and what follows it. The seconds may be left out. -/
def time? : List Char → Option (List Char)
  | h₁ :: h₂ :: ':' :: m₁ :: m₂ :: rest => do
    let _ ← twoDigits? 23 h₁ h₂
    let _ ← twoDigits? 59 m₁ m₂
    match rest with
    | ':' :: s₁ :: s₂ :: rest => do
      let _ ← twoDigits? 60 s₁ s₂
      fraction? rest
    | _ => return rest
  | _ => none

/-- An offset from universal time, or nothing. -/
def isOffset : List Char → Bool
  | [] | ['Z'] | ['z'] => true
  | [sign, h₁, h₂, ':', m₁, m₂] =>
    (sign == '+' || sign == '-') && (twoDigits? 23 h₁ h₂).isSome && (twoDigits? 59 m₁ m₂).isSome
  | _ => false

def dateTime? (cs : List Char) : Option Value := do
  match date? cs with
  | some [] => return .dateTime
  | some (separator :: rest) =>
    if separator != 'T' && separator != 't' && separator != ' ' then none
    if isOffset (← time? rest) then return .dateTime else none
  | none => if (← time? cs).isEmpty then return .dateTime else none

/-! ### Words -/

/-- A number or time that begins with a sign or a digit. The first character after the digits in
front tells them apart. -/
def number? (cs : List Char) : Option Value :=
  let (sign, body) := splitSign cs
  match body with
  | [] => none
  | ['i', 'n', 'f'] | ['n', 'a', 'n'] => some .float
  | '0' :: 'x' :: rest => if sign.isSome then none else baseInteger? 16 isHexDigit rest
  | '0' :: 'o' :: rest => if sign.isSome then none else baseInteger? 8 isOctalDigit rest
  | '0' :: 'b' :: rest => if sign.isSome then none else baseInteger? 2 isBinaryDigit rest
  | _ => match body.dropWhile Char.isDigit with
    | [] => decimalInteger? (sign == some '-') body
    | '-' :: _ | ':' :: _ => dateTime? cs
    | c :: rest =>
      if rest.contains ' ' then none
      else if (c :: rest).any fun c => c == '.' || c == 'e' || c == 'E' then float? body
      else if c == '_' then decimalInteger? (sign == some '-') body
      else none

/-- The value written by `cs`. -/
def ofText? (cs : List Char) : Option Value :=
  if cs == "true".toList then some (.boolean true)
  else if cs == "false".toList then some (.boolean false)
  else number? cs

end TimeSwitch.Toml.Scalar
