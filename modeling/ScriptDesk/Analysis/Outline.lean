import ScriptDesk.Analysis.Basic

/-!
# ScriptDesk.Analysis.Outline

The outline of a script: its procedures by declaration line, then its macros by
line. Entries of one line keep the order in which they were found.
-/

namespace ScriptDesk

/-- One entry of an outline. -/
inductive OutlineEntry where
  | procedure (name : String) (line : Nat) (isDefined : Bool)
  | macroName (name : String) (line : Nat)
deriving DecidableEq, Repr, Inhabited

/-- The outline of an analyzed script. -/
def Analysis.outline (a : Analysis) : List OutlineEntry :=
  (a.procedures.mergeSort (·.declaredAt ≤ ·.declaredAt)).map
      (fun p => .procedure p.name p.declaredAt p.isDefined) ++
    (a.macros.mergeSort (·.line ≤ ·.line)).map (fun m => .macroName m.name m.line)

/-- The outline has one entry for each procedure and each macro. -/
theorem Analysis.length_outline (a : Analysis) :
    a.outline.length = a.procedures.length + a.macros.length := by
  simp [outline]

end ScriptDesk
