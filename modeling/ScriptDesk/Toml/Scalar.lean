import ScriptDesk.Text.Numeral
import ScriptDesk.Toml.Value

/-!
# ScriptDesk.Toml.Scalar

The scalars of a TOML document that are written without quotes: booleans,
integers, floats, and dates and times. Each form is recognized on the whole word
that stands for it.
-/

namespace ScriptDesk.Toml

/-! ## Digits -/

/-- The value of a digit in bases up to 16. -/
def digitValue (c : Char) : Nat :=
  if c.isDigit then c.toNat - '0'.toNat else c.toLower.toNat - 'a'.toNat + 10

/-- The value of digits in a base. -/
def valueOf (base : Nat) (digits : List Char) : Nat :=
  digits.foldl (fun value c => base * value + digitValue c) 0

/-- A decimal digit. -/
def isDecimal (c : Char) : Bool := c.isDigit

/-- An octal digit. -/
def isOctal (c : Char) : Bool := '0' ≤ c && c ≤ '7'

/-- A binary digit. -/
def isBinary (c : Char) : Bool := c = '0' || c = '1'

/-- A hexadecimal digit in either case. -/
def isHexadecimal (c : Char) : Bool :=
  c.isDigit || ('a' ≤ c && c ≤ 'f') || ('A' ≤ c && c ≤ 'F')

/-- Every underscore has a digit on either side. Whether there is a digit in front of
the text is told by `behind`. -/
def underscoresFitFrom (isDigit : Char → Bool) : (behind : Bool) → List Char → Bool
  | _, [] => true
  | behind, c :: rest =>
    if c = '_' then behind && rest.head?.any isDigit && underscoresFitFrom isDigit false rest
    else underscoresFitFrom isDigit (isDigit c) rest

/-- Every underscore of a number stands between two digits. -/
def underscoresFit (isDigit : Char → Bool) (cs : List Char) : Bool :=
  underscoresFitFrom isDigit false cs

/-- The characters without the underscores between them. -/
def ungroup (cs : List Char) : List Char := cs.filter (· ≠ '_')

/-! ## Numbers -/

/-- The sign of a number. -/
inductive Sign where
  | minus
  | plus
deriving DecidableEq, Repr

/-- Takes the sign off a number. -/
def splitSign : List Char → Option Sign × List Char
  | '-' :: rest => (some .minus, rest)
  | '+' :: rest => (some .plus, rest)
  | cs => (none, cs)

/-- The number with its sign. -/
def Sign.apply (sign : Option Sign) (n : Nat) : Int :=
  if sign = some .minus then -(n : Int) else n

/-- Decimal digits do not start with a zero, unless it is the only one. -/
def hasSpareZero (cs : List Char) : Bool := cs.head? == some '0' && cs.length != 1

/-- The value of digits of a base. No digits have none. -/
def magnitude? (base : Nat) (isDigit : Char → Bool) (digits : List Char) : Option Nat :=
  if !digits.isEmpty && digits.all isDigit then some (valueOf base digits) else none

/-- Recognizes an integer in a base that is told in front of its digits. It has no
sign, and may even have no digits. -/
def based? (base : Nat) (isDigit : Char → Bool) (cs : List Char) : Option Value :=
  if cs.all (fun c => isDigit c || c = '_') && underscoresFit isDigit cs then
    some (.integer ((magnitude? base isDigit (ungroup cs)).map (↑·)))
  else none

/-- The part of a decimal integer that follows its first digits: nothing, or what
starts with an underscore and holds neither a space nor a sign of a float. -/
def followsDigits (cs : List Char) : Bool :=
  cs.isEmpty || cs.head? == some '_' && cs.all fun c => !(c ∈ [' ', '.', 'e', 'E'])

/-- Recognizes a decimal integer. Behind the first underscore only the neighbours of
underscores are looked at, and these may be digits of any base; so what looks
like an integer may have no value. -/
def decimal? (word : List Char) : Option Value :=
  let (sign, cs) := splitSign word
  if !cs.isEmpty && followsDigits (cs.dropWhile isDecimal) && !hasSpareZero cs &&
      underscoresFit isHexadecimal cs then
    some (.integer ((magnitude? 10 isDecimal (ungroup cs)).map (Sign.apply sign)))
  else none

/-- Recognizes an integer. -/
def integer? : List Char → Option Value
  | '0' :: 'x' :: rest => based? 16 isHexadecimal rest
  | '0' :: 'o' :: rest => based? 8 isOctal rest
  | '0' :: 'b' :: rest => based? 2 isBinary rest
  | word => decimal? word

/-- One or more decimal digits. -/
def isDigits (cs : List Char) : Bool := !cs.isEmpty && cs.all isDecimal

/-- An exponent: digits, leading zeros included, that may have a sign. -/
def isExponent (cs : List Char) : Bool := isDigits (splitSign cs).2

/-- A fraction with its exponent, if there is one. -/
def isFraction (cs : List Char) : Bool :=
  let (digits, rest) := cs.span fun c => c ≠ 'e' && c ≠ 'E'
  isDigits digits &&
    match rest with
    | [] => true
    | _ :: exponent => isExponent exponent

/-- Digits with a fraction, an exponent or both. -/
def isScaled (cs : List Char) : Bool :=
  let (whole, rest) := cs.span fun c => c ≠ '.' && c ≠ 'e' && c ≠ 'E'
  isDigits whole &&
    match rest with
    | '.' :: fraction => isFraction fraction
    | _ :: exponent => isExponent exponent
    | [] => false

/-- The word is a float: a decimal number with a fraction, an exponent or both, or
one of the words `inf` and `nan`, all with or without a sign. Underscores stand
between digits. -/
def isFloat (word : List Char) : Bool :=
  let cs := (splitSign word).2
  let whole := cs.takeWhile fun c => c ≠ '.' && c ≠ 'e' && c ≠ 'E'
  cs = "inf".toList || cs = "nan".toList ||
    !hasSpareZero whole && underscoresFit isDecimal cs && isScaled (ungroup cs)

/-! ## Dates and times -/

/-- Takes a number of exactly `width` digits off the front. -/
def fixedNumber? (width : Nat) (cs : List Char) : Option (Nat × List Char) := do
  let digits := cs.take width
  guard (digits.length = width)
  return (← Text.digits? digits, cs.drop width)

/-- Takes one of the given characters off the front. -/
def oneOf? (allowed : List Char) : List Char → Option (List Char)
  | c :: rest => if c ∈ allowed then some rest else none
  | [] => none

/-- The number of days of a month. -/
def daysInMonth (year month : Nat) : Nat :=
  if month = 2 then
    if year % 4 = 0 && (year % 100 ≠ 0 || year % 400 = 0) then 29 else 28
  else if month ∈ [4, 6, 9, 11] then 30
  else 31

/-- Takes a date off the front. -/
def date? (cs : List Char) : Option (List Char) := do
  let (year, cs) ← fixedNumber? 4 cs
  let (month, cs) ← fixedNumber? 2 (← oneOf? ['-'] cs)
  let (day, cs) ← fixedNumber? 2 (← oneOf? ['-'] cs)
  guard (1 ≤ month && month ≤ 12 && 1 ≤ day && day ≤ daysInMonth year month)
  return cs

/-- Takes the parts of a second off the front, if there are any. -/
def secondFraction? : List Char → Option (List Char)
  | '.' :: rest => if rest.head?.any isDecimal then some (rest.dropWhile isDecimal) else none
  | cs => some cs

/-- Takes the seconds of a time off the front, if there are any. A minute can have
a leap second. -/
def seconds? : List Char → Option (List Char)
  | ':' :: rest => do
    let (second, rest) ← fixedNumber? 2 rest
    guard (second ≤ 60)
    secondFraction? rest
  | cs => some cs

/-- Takes hours and minutes off the front. -/
def hourMinute? (cs : List Char) : Option (List Char) := do
  let (hour, cs) ← fixedNumber? 2 cs
  let (minute, cs) ← fixedNumber? 2 (← oneOf? [':'] cs)
  guard (hour ≤ 23 && minute ≤ 59)
  return cs

/-- Takes a time of day off the front; its seconds may be left out. -/
def time? (cs : List Char) : Option (List Char) := do seconds? (← hourMinute? cs)

/-- The rest of a date with a time is a distance from universal time, or nothing. -/
def isOffset : List Char → Bool
  | [] => true
  | [c] => c = 'Z' || c = 'z'
  | c :: rest => (c = '+' || c = '-') && hourMinute? rest == some []

/-- The word is a date, a time, or a date and a time. -/
def isDateTime (word : List Char) : Bool :=
  match date? word with
  | some [] => true
  | some rest =>
    match oneOf? ['T', 't', ' '] rest with
    | some rest => (time? rest).any isOffset
    | none => false
  | none => time? word == some []

/-! ## Words -/

/-- Reads a scalar written without quotes. -/
def scalar? (word : List Char) : Option Value :=
  if word = "true".toList then some (.boolean true)
  else if word = "false".toList then some (.boolean false)
  else
    match integer? word with
    | some value => some value
    | none =>
      if isFloat word then some (.float (String.ofList word))
      else if isDateTime word then some (.dateTime (String.ofList word))
      else none

end ScriptDesk.Toml
