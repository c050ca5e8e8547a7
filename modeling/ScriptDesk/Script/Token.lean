import ScriptDesk.Text.Caseless

/-!
# ScriptDesk.Script.Token

The tokens of a cleaned line: identifiers and semicolons. An identifier is a
longest run of ASCII letters, digits and underscores that does not start with a
digit; every other character only separates. Columns are counted from 1, in
characters.
-/

namespace ScriptDesk.Script

/-- An identifier starts with an ASCII letter or an underscore. -/
def isWordStart (c : Char) : Bool := c.isAlpha || c == '_'

/-- An identifier goes on with ASCII letters, digits and underscores. -/
def isWordChar (c : Char) : Bool := c.isAlphanum || c == '_'

theorem isWordChar_of_isWordStart {c : Char} (h : isWordStart c = true) : isWordChar c = true := by
  simp only [isWordStart, Bool.or_eq_true, beq_iff_eq] at h
  rcases h with h | h <;> simp [isWordChar, Char.isAlphanum, h]

/-- An identifier or a semicolon with its place in the text. -/
structure Token where
  text : String
  line : Nat
  column : Nat
deriving DecidableEq, Repr, Inhabited

/-- What a token does to the structure of a script. -/
inductive Role where
  | procedure
  | variables
  | opening
  | closing
  | semicolon
  | word
deriving DecidableEq, Repr

/-- The keywords are `procedure`, `variable`, `begin` and `end`, in any case. -/
def Token.role (t : Token) : Role :=
  if t.text = ";" then .semicolon
  else if Text.sameCaseless t.text "procedure" then .procedure
  else if Text.sameCaseless t.text "variable" then .variables
  else if Text.sameCaseless t.text "begin" then .opening
  else if Text.sameCaseless t.text "end" then .closing
  else .word

/-- The identifier whose characters are `word`, last one first, and which ends
directly before `column`. -/
def wordToken (line : Nat) (word : List Char) (column : Nat) : List Token :=
  if word.isEmpty then [] else [⟨String.ofList word.reverse, line, column - word.length⟩]

/-- The tokens of a line from `column` on. The characters read so far of an
identifier that may still go on are in `word`, last one first. -/
def tokensFrom (line : Nat) : (word : List Char) → (column : Nat) → List Char → List Token
  | word, column, [] => wordToken line word column
  | word, column, c :: rest =>
    if isWordChar c && (!word.isEmpty || isWordStart c) then
      tokensFrom line (c :: word) (column + 1) rest
    else
      wordToken line word column ++ (if c = ';' then [⟨";", line, column⟩] else []) ++
        tokensFrom line [] (column + 1) rest

/-- The tokens of the line with the given number. -/
def tokens (line : Nat) (text : List Char) : List Token := tokensFrom line [] 1 text

/-- Every token of a line carries the number of that line. -/
theorem line_of_mem_tokensFrom {line column : Nat} {word text : List Char} {t : Token}
    (h : t ∈ tokensFrom line word column text) : t.line = line := by
  fun_induction tokensFrom line word column text with
  | case1 word column =>
    simp only [wordToken] at h
    split at h <;> simp_all
  | case2 word column c rest _ ih => exact ih h
  | case3 word column c rest _ ih =>
    simp only [List.mem_append] at h
    rcases h with (h | h) | h
    · simp only [wordToken] at h
      split at h <;> simp_all
    · split at h <;> simp_all
    · exact ih h

end ScriptDesk.Script
