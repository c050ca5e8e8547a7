import ScriptDesk.Text.Blank
import ScriptDesk.Script.Parts
import ScriptDesk.Script.Token

/-!
# ScriptDesk.Script.Directive

Lines for the preprocessor. A directive starts on a line whose first character
that is not blank is `#`, and goes on over the next line as long as the last
such character of a line is a backslash. Directive lines hold no structure;
those of the form `#define NAME` name a macro.
-/

namespace ScriptDesk.Script

/-- A directive starts on this line. -/
def startsDirective (line : List Char) : Bool := (Text.trimStart line).head? == some '#'

/-- A directive that holds this line goes on over the next one. -/
def continuesDirective (line : List Char) : Bool := (Text.trimEnd line).getLast? == some '\\'

/-- Marks each line by whether it belongs to a directive; `inside` tells whether
the first one continues a directive. -/
def markDirectives : (inside : Bool) → List (List Char) → List (Bool × List Char)
  | _, [] => []
  | inside, line :: rest =>
    let directive := inside || startsDirective line
    (directive, line) :: markDirectives (directive && continuesDirective line) rest

/-- Marking keeps the lines. -/
@[simp] theorem map_snd_markDirectives (inside : Bool) (ls : List (List Char)) :
    (markDirectives inside ls).map Prod.snd = ls := by
  induction ls generalizing inside with
  | nil => rfl
  | cons line rest ih => simp [markDirectives, ih]

@[simp] theorem length_markDirectives (inside : Bool) (ls : List (List Char)) :
    (markDirectives inside ls).length = ls.length := by
  rw [← List.length_map (f := Prod.snd), map_snd_markDirectives]

/-- The name that follows the word `define` and at least one blank. -/
def definedName? (afterDefine : List Char) : Option String :=
  let name := (Text.trimStart afterDefine).takeWhile isWordChar
  if afterDefine.head?.any Text.isBlank && name.head?.any isWordStart then
    some (String.ofList name)
  else none

/-- The macro that a directive line defines. The word `define` is written in
small letters, with blanks allowed on both sides of the `#`. -/
def macroName? (line : List Char) : Option String :=
  match Text.trimStart line with
  | '#' :: rest =>
    match Text.trimStart rest with
    | 'd' :: 'e' :: 'f' :: 'i' :: 'n' :: 'e' :: rest => definedName? rest
    | _ => none
  | _ => none

/-- The macros of the marked lines, the first of which has number `line`. -/
def macrosFrom : (line : Nat) → List (Bool × List Char) → List Macro
  | _, [] => []
  | line, (directive, text) :: rest =>
    match directive, macroName? text with
    | true, some name => ⟨name, line⟩ :: macrosFrom (line + 1) rest
    | _, _ => macrosFrom (line + 1) rest

/-- The tokens of the marked lines that belong to no directive, the first line
having number `line`. -/
def codeTokensFrom : (line : Nat) → List (Bool × List Char) → List Token
  | _, [] => []
  | line, (directive, text) :: rest =>
    (if directive then [] else tokens line text) ++ codeTokensFrom (line + 1) rest

end ScriptDesk.Script
