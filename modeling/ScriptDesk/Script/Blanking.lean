import ScriptDesk.Text.Line

/-!
# ScriptDesk.Script.Blanking

Comments and string literals carry no structure, so they are blanked before a
script is read: every character of a string literal (its quotes included) and
of a block comment (its delimiters included) becomes a space, and a line
comment is cut off with the rest of its line. What is left stands in the column
in which it was written.

A string literal ends at the latest with its line; a block comment runs over
line ends until it is closed.
-/

namespace ScriptDesk.Script

/-- What a position of the text belongs to. -/
inductive Region where
  | code
  | quoted
  | comment
deriving DecidableEq, Repr

/-- The region in which the next line starts. -/
def Region.atLineStart : Region → Region
  | .comment => .comment
  | .code | .quoted => .code

/-- One blanked position in front of a blanked rest. -/
def blankThen (rest : List Char × Region) : List Char × Region := (' ' :: rest.1, rest.2)

/-- Blanks a line that starts in `region`. The answer holds the blanked line and
the region at its end. -/
def blankFrom : Region → List Char → List Char × Region
  | region, [] => ([], region)
  | .comment, '*' :: '/' :: rest => blankThen (blankThen (blankFrom .code rest))
  | .comment, _ :: rest => blankThen (blankFrom .comment rest)
  | .quoted, '"' :: rest => blankThen (blankFrom .code rest)
  | .quoted, _ :: rest => blankThen (blankFrom .quoted rest)
  | .code, '"' :: rest => blankThen (blankFrom .quoted rest)
  | .code, '/' :: '/' :: _ => ([], .code)
  | .code, '/' :: '*' :: rest => blankThen (blankThen (blankFrom .comment rest))
  | .code, c :: rest => (c :: (blankFrom .code rest).1, (blankFrom .code rest).2)

/-- Blanks the lines one after another, the first of them starting in
`region`. -/
def blankLines : Region → List (List Char) → List (List Char)
  | _, [] => []
  | region, line :: rest =>
    (blankFrom region line).1 :: blankLines (blankFrom region line).2.atLineStart rest

/-- The lines of a text without line breaks, comments and string literals. -/
def cleanLines (text : List Char) : List (List Char) :=
  blankLines .code ((Text.lines text).map Text.content)

/-- Blanking keeps the lines apart: there is one blanked line for each line. -/
@[simp] theorem length_blankLines (region : Region) (ls : List (List Char)) :
    (blankLines region ls).length = ls.length := by
  induction ls generalizing region with
  | nil => rfl
  | cons line rest ih => simp [blankLines, ih]

/-- A text has as many cleaned lines as it has lines. -/
theorem length_cleanLines (text : List Char) :
    (cleanLines text).length = (Text.lines text).length := by
  simp [cleanLines]

/-- Blanking never makes a line longer. -/
theorem length_blankFrom_le (region : Region) (line : List Char) :
    (blankFrom region line).1.length ≤ line.length := by
  fun_induction blankFrom region line <;> simp_all [blankThen]

end ScriptDesk.Script
