import ScriptDesk.Text.Caseless

/-!
# ScriptDesk.Script.Parts

The named parts of a script: procedures, macros and the line ranges they
occupy. Lines are counted from 1.
-/

namespace ScriptDesk.Script

/-- The lines from `first` to `last`, both included. -/
structure LineRange where
  first : Nat
  last : Nat
deriving DecidableEq, Repr, Inhabited

namespace LineRange

/-- The range ends before it starts. -/
def isInverted (r : LineRange) : Bool := r.last < r.first

/-- The number of lines the range covers; an inverted one counts as its first
line. -/
def length (r : LineRange) : Nat := r.last - r.first + 1

/-- The range takes more than one line. -/
def isMultiline (r : LineRange) : Bool := r.first < r.last

/-- The line lies in the range. -/
def covers (r : LineRange) (line : Nat) : Bool := r.first ≤ line && line ≤ r.last

theorem covers_iff {r : LineRange} {line : Nat} :
    r.covers line = true ↔ r.first ≤ line ∧ line ≤ r.last := by
  simp [covers]

end LineRange

/-- A procedure, declared or defined. -/
structure Procedure where
  name : String
  /-- The line of the first declaration or definition. -/
  declaredAt : Nat
  /-- From the defining `procedure` to its closing `end`; a procedure that is only
  declared has none. -/
  body : Option LineRange
  /-- The file that holds the procedure; an unsaved text has none. -/
  file : Option String
deriving DecidableEq, Repr, Inhabited

namespace Procedure

/-- The procedure has a body. -/
def isDefined (p : Procedure) : Bool := p.body.isSome

/-- The procedure belongs to `file`. File names are compared without case, and
procedures of unsaved text belong to unsaved text only. -/
def isIn (p : Procedure) (file : Option String) : Bool :=
  match p.file, file with
  | none, none => true
  | some a, some b => Text.sameCaseless a b
  | _, _ => false

/-- The procedure goes by `name`, in any case. -/
def isNamed (p : Procedure) (name : String) : Bool := Text.sameCaseless p.name name

end Procedure

/-- A macro and the line that defines it. -/
structure Macro where
  name : String
  line : Nat
deriving DecidableEq, Repr, Inhabited

end ScriptDesk.Script
