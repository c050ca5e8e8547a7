import ScriptDesk.Toml.Quoted

/-!
# ScriptDesk.Toml.Document

Reading a TOML 1.1 document into its root table. What is no such document has
none; nothing is said about why.

A reader takes something off the front of the text and answers it with the rest.
-/

namespace ScriptDesk.Toml

/-! ## Space between the parts -/

/-- A blank on a line. -/
def isBlank (c : Char) : Bool := c = ' ' || c = '\t'

/-- The text without its leading blanks. -/
def skipBlanks (cs : List Char) : List Char := cs.dropWhile isBlank

/-- The text without the blanks, line ends and comments at its start. A comment
holds no control characters. -/
def skipSpace? : (inComment : Bool) → List Char → Option (List Char)
  | _, [] => some []
  | _, '\n' :: rest => skipSpace? false rest
  | _, '\r' :: '\n' :: rest => skipSpace? false rest
  | true, c :: rest => if isControl c then none else skipSpace? true rest
  | false, '#' :: rest => skipSpace? true rest
  | false, c :: rest => if isBlank c then skipSpace? false rest else some (c :: rest)

/-- The text behind the current line, of which only blanks and a comment are
left. -/
def endLine? : (inComment : Bool) → List Char → Option (List Char)
  | _, [] => some []
  | _, '\n' :: rest => some rest
  | _, '\r' :: '\n' :: rest => some rest
  | true, c :: rest => if isControl c then none else endLine? true rest
  | false, '#' :: rest => endLine? true rest
  | false, c :: rest => if isBlank c then endLine? false rest else none

/-! ## Keys -/

/-- A character of a key without quotes. -/
def isKeyChar (c : Char) : Bool := c.isAlphanum || c = '_' || c = '-'

/-- Reads one part of a key. -/
def keyPart? : List Char → Option (String × List Char)
  | '"' :: rest => (basic? rest).map fun (cs, rest) => (String.ofList cs, rest)
  | '\'' :: rest => (literal? rest).map fun (cs, rest) => (String.ofList cs, rest)
  | cs =>
    let (part, rest) := cs.span isKeyChar
    if part.isEmpty then none else some (String.ofList part, rest)

/-- Reads a key of at most `limit` parts with dots between them, and the blanks
around it. -/
def keyWithin : (limit : Nat) → List Char → Option (List String × List Char)
  | 0, _ => none
  | limit + 1, cs =>
    match keyPart? (skipBlanks cs) with
    | none => none
    | some (part, rest) =>
      match skipBlanks rest with
      | '.' :: rest => (keyWithin limit rest).map fun (parts, rest) => (part :: parts, rest)
      | rest => some ([part], rest)

/-- How deep tables and arrays may lie in one another. -/
def maxDepth : Nat := 80

/-- Reads a key, and the blanks around it. A key has no more parts than tables may
lie in one another. -/
def key? (cs : List Char) : Option (List String × List Char) := keyWithin maxDepth cs

/-! ## Values -/

/-- A character that ends a scalar without quotes. Quotes do not: inside of a word
they are characters like any other. -/
def endsWord (c : Char) : Bool :=
  c ∈ [' ', '\t', '\n', '\r', ',', '[', ']', '\x7b', '\x7d', '#', '=']

/-- A character that no word starts with when it stands behind blanks. -/
def startsNoWord (c : Char) : Bool := endsWord c || c = '.' || c = '"' || c = '\''

/-- A blank at the start of the text that lies inside of a word: behind the blanks
the word goes on. -/
def goesOn (cs : List Char) : Bool := (skipBlanks cs).head?.any (!startsNoWord ·)

/-- Takes a word off the front. Blanks between words belong to them, so that a date
and a time behind it are one word. -/
def word : List Char → List Char × List Char
  | [] => ([], [])
  | c :: rest =>
    if !endsWord c || isBlank c && goesOn rest then
      let (more, rest) := word rest
      (c :: more, rest)
    else ([], c :: rest)

/-- What a value reader answers. -/
abbrev ValueReader := List Char → Option (Value × List Char)

/-- Reads a scalar without quotes. -/
def bare? : ValueReader := fun cs =>
  let (first, rest) := word cs
  (scalar? first).map (·, rest)

/-- What is read of a string is its value. -/
def Quoted.toValue (q : Quoted) : Option (Value × List Char) :=
  q.map fun (cs, rest) => (.string (String.ofList cs), rest)

/-- Reads the items of an array of at most `fuel` items, up to its closing
bracket. A comma may follow the last item. -/
def itemsFrom (item : ValueReader) : (fuel : Nat) → List Char → Option (List Value × List Char)
  | 0, _ => none
  | fuel + 1, cs => do
    match ← skipSpace? false cs with
    | ']' :: rest => return ([], rest)
    | cs =>
      let (value, rest) ← item cs
      match ← skipSpace? false rest with
      | ',' :: rest =>
        let (values, rest) ← itemsFrom item fuel rest
        return (value :: values, rest)
      | ']' :: rest => return ([value], rest)
      | _ => none

/-- Reads a key with its value. What may stand on either side of the `=` is skipped
by `skip?`. -/
def assignment? (skip? : List Char → Option (List Char)) (value : ValueReader)
    (cs : List Char) : Option (List String × Value × List Char) := do
  let (key, rest) ← key? cs
  match ← skip? rest with
  | '=' :: rest =>
    let (v, rest) ← value (← skip? rest)
    return (key, v, rest)
  | _ => none

/-- Reads the entries of a table in braces, at most `fuel` of them, up to its
closing brace. A comma may follow the last entry, and line ends and comments may
stand wherever blanks may, but not inside of a key. -/
def entriesFrom (value : ValueReader) : (fuel : Nat) → Table → List Char →
    Option (Table × List Char)
  | 0, _, _ => none
  | fuel + 1, t, cs => do
    match ← skipSpace? false cs with
    | '\x7d' :: rest => return (t, rest)
    | cs =>
      let (key, v, rest) ← assignment? (skipSpace? false) value cs
      let t ← t.add? key v
      match ← skipSpace? false rest with
      | ',' :: rest => entriesFrom value fuel t rest
      | '\x7d' :: rest => return (t, rest)
      | _ => none

/-- Reads a value that is not an array or a table. -/
def flat? : ValueReader
  | '"' :: '"' :: '"' :: rest => (longBasic? rest).toValue
  | '"' :: rest => (basic? rest).toValue
  | '\'' :: '\'' :: '\'' :: rest => (longLiteral? rest).toValue
  | '\'' :: rest => (literal? rest).toValue
  | cs => bare? cs

/-- Reads a value in which arrays and tables lie at most `depth` deep. -/
def valueWithin : (depth : Nat) → ValueReader
  | 0 => flat?
  | depth + 1 => fun cs =>
    match cs with
    | '[' :: rest =>
      (itemsFrom (valueWithin depth) (rest.length + 1) rest).map fun (items, rest) =>
        (.array items, rest)
    | '\x7b' :: rest =>
      (entriesFrom (valueWithin depth) (rest.length + 1) { origin := .inline } rest).map
        fun (t, rest) => ({ t with origin := .inline }.toValue, rest)
    | cs => flat? cs

/-- Reads a value. -/
def value? : ValueReader := valueWithin maxDepth

/-! ## Statements -/

/-- The document as far as it was read: its root table, and the path of the table
whose header was read last. -/
structure Progress where
  root : Table := { origin := .header }
  current : List String := []

namespace Progress

/-- A header names the table at its path and makes it current. -/
def openTable (p : Progress) (path : List String) : Option Progress := do
  let last ← path.getLast?
  return { root := ← p.root.modifyAt false (Table.nameTable last) path.dropLast, current := path }

/-- A header in double brackets adds a table to the array at its path and makes it
current. -/
def openTables (p : Progress) (path : List String) : Option Progress := do
  let last ← path.getLast?
  return { root := ← p.root.modifyAt false (Table.appendTable last) path.dropLast, current := path }

/-- A key with its value goes into the current table. -/
def assign (p : Progress) (key : List String) (value : Value) : Option Progress := do
  return { p with root := ← p.root.modifyAt false (·.add? key value) p.current }

end Progress

/-- Reads one statement and the end of its line. -/
def statement? (p : Progress) : List Char → Option (Progress × List Char)
  | '[' :: '[' :: rest => do
    match ← key? rest with
    | (path, ']' :: ']' :: rest) => return (← p.openTables path, ← endLine? false rest)
    | _ => none
  | '[' :: rest => do
    match ← key? rest with
    | (path, ']' :: rest) => return (← p.openTable path, ← endLine? false rest)
    | _ => none
  | cs => do
    let (key, value, rest) ← assignment? (some <| skipBlanks ·) value? cs
    return (← p.assign key value, ← endLine? false rest)

/-- Reads the statements up to the end of the text, at most `fuel` of them. -/
def statementsFrom : (fuel : Nat) → Progress → List Char → Option Progress
  | 0, _, _ => none
  | fuel + 1, p, cs => do
    match ← skipSpace? false cs with
    | [] => return p
    | cs =>
      let (p, rest) ← statement? p cs
      statementsFrom fuel p rest

/-- The text without a byte order mark at its start. -/
def dropMark : List Char → List Char
  | '\ufeff' :: rest => rest
  | cs => cs

/-- Reads a document. -/
def document? (text : String) : Option Table :=
  let cs := dropMark text.toList
  (statementsFrom (cs.length + 1) {} cs).map (·.root)

end ScriptDesk.Toml
