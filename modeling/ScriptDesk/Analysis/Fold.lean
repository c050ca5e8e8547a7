import ScriptDesk.Analysis.Basic
import ScriptDesk.Text.UpperCase

/-!
# ScriptDesk.Analysis.Fold

The line ranges of a file that an editor can collapse: each body and each
variable block of more than one line, by their first lines, and in front of them
the region of forward declarations above the first body.
-/

namespace ScriptDesk

open Script (LineRange Procedure)

/-- What a fold stands for. -/
inductive FoldKind where
  | procedure
  /-- The forward declarations above the first body. -/
  | declarations
  | variables
deriving DecidableEq, Repr, Inhabited

/-- A range of lines that can be collapsed to its label. -/
structure Fold where
  range : LineRange
  label : String
  kind : FoldKind
deriving DecidableEq, Repr, Inhabited

namespace Analysis

/-- The highest number that a line can have. A declaration on that line precedes
no body. -/
def lastLineNumber : Nat := UInt32.size - 1

/-- The procedures of the file. -/
def proceduresIn (a : Analysis) (file : Option String) : List Procedure :=
  a.procedures.filter (·.isIn file)

/-- The fold of a body, if it takes more than one line. -/
def bodyFold? (p : Procedure) : Option Fold :=
  (p.body.filter (·.isMultiline)).map fun range => ⟨range, Text.upperCase p.name, .procedure⟩

/-- The folds of the variable blocks that take more than one line. -/
def blockFolds (a : Analysis) : List Fold :=
  (a.blocks.filter (·.isMultiline)).map fun range => ⟨range, "VARIABLES", .variables⟩

/-- The line on which the first body starts; without a body it is the highest
line number. -/
def firstBodyLine (ps : List Procedure) : Nat :=
  ((ps.filterMap (·.body)).map (·.first)).min?.getD lastLineNumber

/-- A forward declaration: the procedure is declared on a line of its own, apart
from its body. -/
def isForward (p : Procedure) : Bool := p.body.all (·.first != p.declaredAt)

/-- The lines of the forward declarations above the first body. -/
def forwardLines (ps : List Procedure) : List Nat :=
  ((ps.filter isForward).map (·.declaredAt)).filter (· < firstBodyLine ps)

/-- The region from the first to the last of those lines, if it takes more than
one line. -/
def declarationRegion? (ps : List Procedure) : Option LineRange :=
  match (forwardLines ps).min?, (forwardLines ps).max? with
  | some first, some last => if first < last then some ⟨first, last⟩ else none
  | _, _ => none

/-- The folds of a file. Bodies and blocks come by first line, bodies before
blocks that start with them; the declaration region comes before all. -/
def folds (a : Analysis) (file : Option String) : List Fold :=
  let ps := a.proceduresIn file
  let region := (declarationRegion? ps).map fun range => ⟨range, "DECLARATIONS", .declarations⟩
  region.toList ++
    (ps.filterMap bodyFold? ++ a.blockFolds).mergeSort (·.range.first ≤ ·.range.first)

end Analysis

end ScriptDesk
