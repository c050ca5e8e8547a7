import ScriptDesk.Script.Blanking
import ScriptDesk.Script.Directive

/-!
# ScriptDesk.Script.Structure

The structure of a script: which procedures it declares and defines, which
`variable` blocks it opens at top level, and where its `begin`s and `end`s do
not fit together.

The tokens are read one at a time. `procedure` synchronizes the reading: met
inside an unfinished header, body or block, it ends that part with an issue and
starts the next procedure, so one broken procedure never hides a later one.
-/

namespace ScriptDesk.Script

/-! ## Issues -/

/-- What is wrong with the structure of a script. -/
inductive Problem where
  | unmatchedEnd
  | unterminatedProcedure (name : String)
  | duplicateProcedure (name : String) (firstLine : Nat)
  | missingBody (name : String)
  | unterminatedVariables
deriving DecidableEq, Repr

/-- The wording of a problem. -/
def Problem.message : Problem → String
  | .unmatchedEnd => "`end` without matching `begin`"
  | .unterminatedProcedure name => "procedure `" ++ name ++ "` has no matching `end`"
  | .duplicateProcedure name firstLine =>
    "procedure `" ++ name ++ "` is already defined at line " ++ toString firstLine
  | .missingBody name => "procedure `" ++ name ++ "` expects `;` or `begin`"
  | .unterminatedVariables => "`variable begin` block has no matching `end`"

/-- A problem with its place: the token that it is reported on. -/
structure Issue where
  problem : Problem
  line : Nat
  column : Nat
  length : Nat
deriving DecidableEq, Repr

/-! ## Reading tokens -/

/-- What the reading has seen of the part it is in. Lines and columns are those
of the token that opened the part; `nested` counts the `begin`s open inside. -/
inductive Context where
  | top
  /-- After `procedure`, before its name. -/
  | naming (line column : Nat)
  /-- After the name, before `;` or `begin`. -/
  | header (name : String) (line column : Nat)
  | body (name : String) (line column nested : Nat)
  /-- After a `variable` at top level, which a `begin` makes a block. -/
  | variables (line column : Nat)
  | block (line column nested : Nat)
deriving DecidableEq, Repr

/-- The reading of a script up to some token. -/
structure Reading where
  context : Context := .top
  /-- The `begin`s open at top level. -/
  depth : Nat := 0
  procedures : List Procedure := []
  blocks : List LineRange := []
  issues : List Issue := []
deriving Repr

namespace Reading

/-- Notes a problem. -/
def report (r : Reading) (problem : Problem) (line column length : Nat) : Reading :=
  { r with issues := r.issues ++ [⟨problem, line, column, length⟩] }

/-- The procedure of that name among those read so far. -/
def procedure? (r : Reading) (name : String) : Option Procedure :=
  r.procedures.find? (·.isNamed name)

/-- Enters a procedure without a body, unless its name is already known. -/
def declare (r : Reading) (name : String) (line : Nat) : Reading :=
  match r.procedure? name with
  | some _ => r
  | none => { r with procedures := r.procedures ++ [⟨name, line, none, none⟩] }

/-- Gives a procedure its body. The first body of a name stands; a later one is
reported on its `procedure` token. -/
def define (r : Reading) (name : String) (range : LineRange) (column : Nat) : Reading :=
  match r.procedure? name with
  | some { body := some first, .. } =>
    r.report (.duplicateProcedure name first.first) range.first column name.length
  | some { body := none, .. } =>
    { r with procedures := r.procedures.map fun p =>
        if p.isNamed name then { p with body := some range } else p }
  | none => { r with procedures := r.procedures ++ [⟨name, range.first, some range, none⟩] }

/-- A body that is cut off before its `end`: it is reported and ends at `last`,
though not before it starts. -/
def cutOff (r : Reading) (name : String) (line column last : Nat) : Reading :=
  (r.report (.unterminatedProcedure name) line column "procedure".length).define name
    ⟨line, max last line⟩ column

/-- A header without `;` or `begin`: it is reported and counts as a
declaration. -/
def missBody (r : Reading) (name : String) (line column : Nat) : Reading :=
  (r.report (.missingBody name) line column "procedure".length).declare name line

/-- A variable block that is cut off before its `end`. -/
def cutOffBlock (r : Reading) (line column : Nat) : Reading :=
  r.report .unterminatedVariables line column "variable".length

/-- The reading continues in another context. -/
def enter (r : Reading) (context : Context) : Reading := { r with context }

/-- Reads a token that stands at top level. -/
def stepTop (r : Reading) (t : Token) : Reading :=
  match t.role with
  | .procedure => r.enter (.naming t.line t.column)
  | .variables => r.enter (.variables t.line t.column)
  | .opening => { r with context := .top, depth := r.depth + 1 }
  | .closing =>
    match r.depth with
    | 0 => (r.report .unmatchedEnd t.line t.column t.text.length).enter .top
    | depth + 1 => { r with context := .top, depth }
  | .semicolon | .word => r.enter .top

/-- Reads one token. -/
def step (r : Reading) (t : Token) : Reading :=
  match r.context with
  | .top => r.stepTop t
  | .naming line column =>
    match t.role with
    | .variables | .word => r.enter (.header t.text line column)
    | _ => r.stepTop t
  | .header name line column =>
    match t.role with
    | .semicolon => (r.declare name line).enter .top
    | .opening => r.enter (.body name line column 0)
    | .procedure => (r.missBody name line column).stepTop t
    | _ => r
  | .body name line column nested =>
    match t.role with
    | .opening => r.enter (.body name line column (nested + 1))
    | .closing =>
      match nested with
      | 0 => (r.define name ⟨line, t.line⟩ column).enter .top
      | nested + 1 => r.enter (.body name line column nested)
    | .procedure => (r.cutOff name line column (t.line - 1)).stepTop t
    | _ => r
  | .variables line column =>
    match t.role with
    | .opening => r.enter (.block line column 0)
    | _ => r.stepTop t
  | .block line column nested =>
    match t.role with
    | .opening => r.enter (.block line column (nested + 1))
    | .closing =>
      match nested with
      | 0 => { r with context := .top, blocks := r.blocks ++ [⟨line, t.line⟩] }
      | nested + 1 => r.enter (.block line column nested)
    | .procedure => (r.cutOffBlock line column).stepTop t
    | _ => r

/-- Ends the reading at the last line of the text: what is open is cut off. -/
def finish (r : Reading) (lastLine : Nat) : Reading :=
  match r.context with
  | .body name line column _ => r.cutOff name line column lastLine
  | .header name line column => r.missBody name line column
  | .block line column _ => r.cutOffBlock line column
  | .top | .naming _ _ | .variables _ _ => r

/-- The reading of a sequence of tokens from the start of a text. -/
def ofTokens (ts : List Token) : Reading := ts.foldl step {}

end Reading

/-! ## The structure of a text -/

/-- What a text says about its own structure. -/
structure Structure where
  procedures : List Procedure
  macros : List Macro
  blocks : List LineRange
  issues : List Issue
deriving Repr

/-- The cleaned lines of a text, marked by whether they belong to a directive. -/
def markedLines (text : List Char) : List (Bool × List Char) :=
  markDirectives false (cleanLines text)

/-- The tokens that carry the structure of a text. -/
def codeTokens (text : List Char) : List Token := codeTokensFrom 1 (markedLines text)

/-- The structure of a text. -/
def Structure.ofText (text : List Char) : Structure :=
  let read := (Reading.ofTokens (codeTokens text)).finish (cleanLines text).length
  { procedures := read.procedures
    macros := macrosFrom 1 (markedLines text)
    blocks := read.blocks
    issues := read.issues }

end ScriptDesk.Script
