import ScriptDesk.Analysis.Basic

/-!
# ScriptDesk.Analysis.Validity

What every analysis on record satisfies, whoever made it: procedures have names,
no range ends before it starts, a diagnostic with a column has a line, and
errors are flagged. `Analysis.defect?` finds the first violation in that order.
-/

namespace ScriptDesk

open Script (LineRange Procedure)

/-- A way in which an analysis is not well formed. -/
inductive Defect where
  | namelessProcedure (line : Nat)
  | invertedBody (name : String) (range : LineRange)
  | invertedBlock (range : LineRange)
  | columnWithoutLine (message : String)
  | unflaggedError
deriving DecidableEq, Repr

/-- The wording of a defect. -/
def Defect.message : Defect → String
  | .namelessProcedure line => "procedure with empty name at line " ++ toString line
  | .invertedBody name range =>
    "procedure " ++ name ++ " body ends before it starts (" ++ toString range.first ++ ".." ++
      toString range.last ++ ")"
  | .invertedBlock range =>
    "variable block ends before it starts (" ++ toString range.first ++ ".." ++
      toString range.last ++ ")"
  | .columnWithoutLine message => "error entry has a column but no line: " ++ message
  | .unflaggedError => "error entries present but has_error is false"

namespace Analysis

/-- The defect of one procedure: a missing name counts before an inverted
body. -/
def procedureDefect? (p : Procedure) : Option Defect :=
  if p.name = "" then some (.namelessProcedure p.declaredAt)
  else
    match p.body with
    | some range => if range.isInverted then some (.invertedBody p.name range) else none
    | none => none

/-- The defect of one variable block. -/
def blockDefect? (range : LineRange) : Option Defect :=
  if range.isInverted then some (.invertedBlock range) else none

/-- The defect of one diagnostic. -/
def diagnosticDefect? (d : Diagnostic) : Option Defect :=
  if d.line == 0 && d.column != 0 then some (.columnWithoutLine d.message) else none

/-- The defect of the error flag. -/
def flagDefect? (a : Analysis) : Option Defect :=
  if a.diagnostics.any (·.severity == .error) && !a.hasError then some .unflaggedError else none

/-- The first defect of an analysis: procedures come first, in their order, then
blocks, then diagnostics, then the error flag. -/
def defect? (a : Analysis) : Option Defect :=
  a.procedures.findSome? procedureDefect? <|> a.blocks.findSome? blockDefect? <|>
    a.diagnostics.findSome? diagnosticDefect? <|> a.flagDefect?

/-- An analysis that is fit to be put on record. -/
structure WellFormed (a : Analysis) : Prop where
  named : ∀ p ∈ a.procedures, p.name ≠ ""
  bodies : ∀ p ∈ a.procedures, ∀ range, p.body = some range → range.first ≤ range.last
  blocks : ∀ range ∈ a.blocks, range.first ≤ range.last
  placed : ∀ d ∈ a.diagnostics, d.line = 0 → d.column = 0
  flagged : ∀ d ∈ a.diagnostics, d.severity = .error → a.hasError = true

theorem procedureDefect?_eq_none {p : Procedure} :
    procedureDefect? p = none ↔
      p.name ≠ "" ∧ ∀ range, p.body = some range → range.first ≤ range.last := by
  unfold procedureDefect?
  by_cases hn : p.name = ""
  · simp [hn]
  · cases hb : p.body with
    | none => simp [hn]
    | some range => simp [hn, LineRange.isInverted]

theorem blockDefect?_eq_none {range : LineRange} :
    blockDefect? range = none ↔ range.first ≤ range.last := by
  simp [blockDefect?, LineRange.isInverted]

theorem diagnosticDefect?_eq_none {d : Diagnostic} :
    diagnosticDefect? d = none ↔ (d.line = 0 → d.column = 0) := by
  simp [diagnosticDefect?]

theorem flagDefect?_eq_none {a : Analysis} :
    a.flagDefect? = none ↔ ∀ d ∈ a.diagnostics, d.severity = .error → a.hasError = true := by
  cases h : a.hasError <;> simp [flagDefect?, h]

/-- The check finds a defect exactly in an analysis that is not well formed. -/
theorem defect?_eq_none_iff {a : Analysis} : a.defect? = none ↔ a.WellFormed := by
  have key : a.defect? = none ↔
      (∀ p ∈ a.procedures, procedureDefect? p = none) ∧
      (∀ range ∈ a.blocks, blockDefect? range = none) ∧
      (∀ d ∈ a.diagnostics, diagnosticDefect? d = none) ∧ a.flagDefect? = none := by
    simp [defect?]
  rw [key]
  simp only [procedureDefect?_eq_none, blockDefect?_eq_none, diagnosticDefect?_eq_none,
    flagDefect?_eq_none]
  constructor
  · rintro ⟨hp, hb, hd, hf⟩
    exact ⟨fun p h => (hp p h).1, fun p h => (hp p h).2, hb, hd, hf⟩
  · rintro ⟨hn, hbody, hb, hd, hf⟩
    exact ⟨fun p h => ⟨hn p h, hbody p h⟩, hb, hd, hf⟩

end Analysis

end ScriptDesk
