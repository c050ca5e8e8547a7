/-!
# ScriptDesk.Text.Line

Cutting a text into lines. A line keeps the break that ends it, so the lines
of a text put end to end give the text back (`flatten_lines`). Eight breaks
end a line: LF, CR LF, CR, VT, FF, NEL, LINE SEPARATOR and PARAGRAPH
SEPARATOR. A text that ends in a break has one more, empty, line, and every
text has at least one (`lines_ne_nil`).
-/

namespace ScriptDesk.Text

/-- The characters that end a line. A CR directly before an LF does not end a
line of its own: the two are one break. -/
def isLineBreak (c : Char) : Bool :=
  c ∈ ['\n', '\x0b', '\x0c', '\r', '\u0085', '\u2028', '\u2029']

/-- Puts one more character in front of a text that is already cut. The
character joins the first line, unless it is a break: then it is a line of its
own, except that a CR joins a line that starts with an LF. -/
def consLine (c : Char) : List (List Char) → List (List Char)
  | [] => [[c]]
  | line :: rest =>
    if isLineBreak c && !(c == '\r' && line.head? == some '\n') then [c] :: line :: rest
    else (c :: line) :: rest

/-- The lines of a text, each with the break that ends it. -/
def lines (text : List Char) : List (List Char) := text.foldr consLine [[]]

@[simp] theorem lines_nil : lines [] = [[]] := rfl

@[simp] theorem lines_cons (c : Char) (text : List Char) :
    lines (c :: text) = consLine c (lines text) := rfl

/-- Putting a character in front of the lines puts it in front of the text. -/
theorem flatten_consLine (c : Char) (ls : List (List Char)) :
    (consLine c ls).flatten = c :: ls.flatten := by
  cases ls with
  | nil => rfl
  | cons line rest => simp only [consLine]; split <;> rfl

theorem consLine_ne_nil (c : Char) (ls : List (List Char)) : consLine c ls ≠ [] := by
  cases ls with
  | nil => simp [consLine]
  | cons line rest => simp only [consLine]; split <;> simp

/-- Cutting loses nothing: the lines put end to end are the text. -/
theorem flatten_lines (text : List Char) : (lines text).flatten = text := by
  induction text with
  | nil => rfl
  | cons c text ih => rw [lines_cons, flatten_consLine, ih]

/-- Every text has a line. -/
theorem lines_ne_nil (text : List Char) : lines text ≠ [] := by
  cases text with
  | nil => simp
  | cons c text => exact consLine_ne_nil c _

/-- A line without its LF, CR LF or CR. The other breaks are blanks and stay:
they hold a place on the line but never change what it says. -/
def content (line : List Char) : List Char :=
  (line.reverse.dropWhile fun c => c == '\n' || c == '\r').reverse

end ScriptDesk.Text
