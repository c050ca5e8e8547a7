import ScriptDesk.Toml.Scalar

/-!
# ScriptDesk.Toml.Quoted

The strings of a TOML document: basic ones with escapes and literal ones without,
each on one line or over several. A reader takes a string off the front of the
text, behind its opening quotes, and answers its characters and the rest.
-/

namespace ScriptDesk.Toml

/-- A control character other than a tab; these stand in no string and no
comment. -/
def isControl (c : Char) : Bool := (c.toNat < 0x20 && c ≠ '\t') || c.toNat = 0x7F

/-- What a string reader answers. -/
abbrev Quoted := Option (List Char × List Char)

/-- One more character in front of what was read. -/
def Quoted.cons (c : Char) (q : Quoted) : Quoted := q.map fun (cs, rest) => (c :: cs, rest)

/-! ## Escapes -/

/-- The character whose code is written in `width` hexadecimal digits. Only
characters have codes: surrogates stand for none. -/
def codePoint? (width : Nat) (cs : List Char) : Option (Char × List Char) :=
  let digits := cs.take width
  let code := valueOf 16 digits
  if digits.length = width && digits.all isHexadecimal && code.isValidChar then
    some (Char.ofNat code, cs.drop width)
  else none

/-- The character that an escape stands for, behind its backslash. -/
def escape? : List Char → Option (Char × List Char)
  | 'b' :: rest => some ('\x08', rest)
  | 't' :: rest => some ('\t', rest)
  | 'n' :: rest => some ('\n', rest)
  | 'f' :: rest => some ('\x0c', rest)
  | 'r' :: rest => some ('\r', rest)
  | 'e' :: rest => some ('\x1b', rest)
  | '"' :: rest => some ('"', rest)
  | '\\' :: rest => some ('\\', rest)
  | 'x' :: rest => codePoint? 2 rest
  | 'u' :: rest => codePoint? 4 rest
  | 'U' :: rest => codePoint? 8 rest
  | _ => none

/-! ## Strings on one line -/

/-- Reads a basic string; every step takes a character, of which there are at
most `fuel`. -/
def basicFrom : (fuel : Nat) → List Char → Quoted
  | 0, _ => none
  | _, [] => none
  | _, '"' :: rest => some ([], rest)
  | fuel + 1, '\\' :: rest =>
    match escape? rest with
    | some (c, rest) => (basicFrom fuel rest).cons c
    | none => none
  | fuel + 1, c :: rest => if isControl c then none else (basicFrom fuel rest).cons c

/-- Reads a basic string. -/
def basic? (cs : List Char) : Quoted := basicFrom cs.length cs

/-- Reads a literal string. -/
def literal? : List Char → Quoted
  | [] => none
  | '\'' :: rest => some ([], rest)
  | c :: rest => if isControl c then none else (literal? rest).cons c

/-! ## Strings over several lines -/

/-- The text without a line end at its very start, which belongs to the opening
quotes. -/
def dropFirstBreak : List Char → List Char
  | '\n' :: rest => rest
  | '\r' :: '\n' :: rest => rest
  | cs => cs

/-- The text without the blanks and line ends at its start. -/
def dropSpace : List Char → List Char
  | ' ' :: rest | '\t' :: rest | '\n' :: rest => dropSpace rest
  | '\r' :: '\n' :: rest => dropSpace rest
  | cs => cs

/-- A backslash at the end of a line joins it with the next text: behind it, the
blanks up to the line end and all space that follows are left out. -/
def joinedLine? (cs : List Char) : Option (List Char) :=
  match cs.dropWhile fun c => c = ' ' || c = '\t' with
  | '\n' :: rest => some (dropSpace rest)
  | '\r' :: '\n' :: rest => some (dropSpace rest)
  | _ => none

/-- The quotes at the end of a string over several lines: three of them close it,
and up to two in front of these belong to it. -/
def closing? (quote : Char) : List Char → Quoted
  | a :: b :: c :: rest =>
    if a = quote && b = quote && c = quote then
      match rest with
      | d :: e :: rest =>
        if d = quote && e = quote then some ([quote, quote], rest)
        else if d = quote then some ([quote], e :: rest)
        else some ([], d :: e :: rest)
      | [d] => if d = quote then some ([quote], []) else some ([], [d])
      | [] => some ([], [])
    else none
  | _ => none

/-- Reads a literal string over several lines; every step takes a character, of
which there are at most `fuel`. -/
def longLiteralFrom : (fuel : Nat) → List Char → Quoted
  | 0, _ => none
  | fuel + 1, cs =>
    match closing? '\'' cs, cs with
    | some closed, _ => some closed
    | none, '\r' :: '\n' :: rest => ((longLiteralFrom fuel rest).cons '\n').cons '\r'
    | none, '\n' :: rest => (longLiteralFrom fuel rest).cons '\n'
    | none, c :: rest => if isControl c then none else (longLiteralFrom fuel rest).cons c
    | none, [] => none

/-- Reads a literal string over several lines. -/
def longLiteral? (cs : List Char) : Quoted := longLiteralFrom (cs.length + 1) (dropFirstBreak cs)

/-- Reads a basic string over several lines; every step takes a character, of
which there are at most `fuel`. -/
def longBasicFrom : (fuel : Nat) → List Char → Quoted
  | 0, _ => none
  | fuel + 1, cs =>
    match closing? '"' cs, cs with
    | some closed, _ => some closed
    | none, '\\' :: rest =>
      match escape? rest, joinedLine? rest with
      | some (c, rest), _ => (longBasicFrom fuel rest).cons c
      | none, some rest => longBasicFrom fuel rest
      | none, none => none
    | none, '\r' :: '\n' :: rest => ((longBasicFrom fuel rest).cons '\n').cons '\r'
    | none, '\n' :: rest => (longBasicFrom fuel rest).cons '\n'
    | none, c :: rest => if isControl c then none else (longBasicFrom fuel rest).cons c
    | none, [] => none

/-- Reads a basic string over several lines. -/
def longBasic? (cs : List Char) : Quoted := longBasicFrom (cs.length + 1) (dropFirstBreak cs)

end ScriptDesk.Toml
