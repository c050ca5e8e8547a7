import ScriptDesk.Script.Parts

/-!
# ScriptDesk.Analysis.Basic

What is known about a script after it was analyzed: its name tables (the
procedures, macros and variable blocks), the diagnostics, and two flags. An
`Analysis` is never changed in place; a later one replaces it, or is layered
over it by one of the two rules below:

* `afterFailure` — a failed attempt keeps the name tables and replaces the rest;
* `withNamesOf` — a provisional attempt replaces the name tables and keeps the
  rest.
-/

namespace ScriptDesk

open Script (LineRange Procedure Macro)

/-- How much a diagnostic matters. -/
inductive Severity where
  | error
  | warning
  | note
deriving DecidableEq, Repr, Inhabited

/-- The word for a severity in a report. -/
def Severity.label : Severity → String
  | .error => "error"
  | .warning => "warning"
  | .note => "note"

/-- One remark on a script. Line and column count from 1; both are 0 when the
remark has no place. -/
structure Diagnostic where
  severity : Severity
  file : Option String
  line : Nat
  column : Nat
  length : Nat
  message : String
deriving DecidableEq, Repr, Inhabited

namespace Diagnostic

/-- Diagnostics are listed by line, then by column. -/
def listedBefore (a b : Diagnostic) : Bool :=
  a.line < b.line || (a.line == b.line && a.column ≤ b.column)

theorem listedBefore_trans (a b c : Diagnostic) (hab : a.listedBefore b = true)
    (hbc : b.listedBefore c = true) : a.listedBefore c = true := by
  simp only [listedBefore, Bool.or_eq_true, Bool.and_eq_true, decide_eq_true_eq, beq_iff_eq] at *
  omega

theorem listedBefore_total (a b : Diagnostic) :
    (a.listedBefore b || b.listedBefore a) = true := by
  simp only [listedBefore, Bool.or_eq_true, Bool.and_eq_true, decide_eq_true_eq, beq_iff_eq]
  omega

end Diagnostic

/-- Why an attempt to analyze a script gave nothing. -/
inductive Failure where
  /-- The analyzer reported that it could not analyze the text. -/
  | reported (message : String)
  /-- The analyzer answered with something that is no proper analysis. -/
  | malformed (reason : String)
  /-- The analyzer broke down. -/
  | crashed (message : String)
deriving DecidableEq, Repr, Inhabited

/-- The wording of a failure. -/
def Failure.message : Failure → String
  | .reported message => "analyzer failed: " ++ message
  | .malformed reason => "malformed analysis result: " ++ reason
  | .crashed message => "analyzer panicked: " ++ message

/-- What one attempt found out about a script. -/
structure Analysis where
  procedures : List Procedure := []
  macros : List Macro := []
  diagnostics : List Diagnostic := []
  /-- The top-level `variable` blocks. -/
  blocks : List LineRange := []
  /-- The text was read to its end. -/
  parsed : Bool := false
  /-- An error stands in the way of using the script. -/
  hasError : Bool := false
deriving DecidableEq, Repr, Inhabited

namespace Analysis

/-- The analysis on record after a failed attempt. The name tables of the prior
analysis stay, so that folds and outline survive; the failure is the only
diagnostic. -/
def afterFailure (prior : Option Analysis) (failure : Failure) : Analysis :=
  let names := prior.getD {}
  { procedures := names.procedures
    macros := names.macros
    blocks := names.blocks
    diagnostics := [⟨.error, none, 0, 0, 0, failure.message⟩]
    parsed := false
    hasError := true }

/-- A provisional update: the name tables of `names` with the diagnostics and
flags of `base`. -/
def withNamesOf (base names : Analysis) : Analysis :=
  { base with
    procedures := names.procedures
    macros := names.macros
    blocks := names.blocks }

/-- The first procedure of that name, in any case. -/
def procedure? (a : Analysis) (name : String) : Option Procedure :=
  a.procedures.find? (·.isNamed name)

/-- The number of errors among the diagnostics. -/
def errorCount (a : Analysis) : Nat := a.diagnostics.countP (·.severity == .error)

/-- The procedure at a line: the first one whose body covers it, or else the
first one declared on it. -/
def enclosing? (a : Analysis) (line : Nat) : Option Procedure :=
  a.procedures.find? (fun p => p.body.any (·.covers line)) <|>
    a.procedures.find? (fun p => p.declaredAt == line)

/-- A failure layered over its own outcome changes nothing but the message. -/
theorem afterFailure_afterFailure (prior : Option Analysis) (f g : Failure) :
    afterFailure (some (afterFailure prior f)) g = afterFailure prior g := rfl

/-- Of two provisional updates the later one decides the names. -/
theorem withNamesOf_withNamesOf (base a b : Analysis) :
    (base.withNamesOf a).withNamesOf b = base.withNamesOf b := rfl

end Analysis

end ScriptDesk
