import ScriptDesk.Analysis.Validity
import ScriptDesk.Script.Structure

/-!
# ScriptDesk.Analysis.Analyzer

Analyzers, and the boundary at which they are called. An analyzer may answer
with anything, and it may break down; `Analyzer.run` turns breakdowns and
malformed answers into failures, so that whatever comes out of it is a
well-formed analysis or a failure (`wellFormed_of_run_eq_ok`).

The built-in analyzer reads the structure of the text in both modes; a minimal
pass keeps only the names, a full pass also reports what is wrong.
-/

namespace ScriptDesk

open Script (Procedure Structure)

/-- How deep a pass goes. -/
inductive Mode where
  /-- Only the names are wanted. -/
  | minimal
  /-- The diagnostics are wanted too. -/
  | full
deriving DecidableEq, Repr, Inhabited

namespace Mode

/-- A full pass also answers what a minimal one would. -/
def covers : Mode → Mode → Bool
  | .full, _ => true
  | .minimal, .minimal => true
  | .minimal, .full => false

/-- The lesser mode that covers both. -/
def join : Mode → Mode → Mode
  | .minimal, .minimal => .minimal
  | _, _ => .full

@[simp] theorem covers_refl (m : Mode) : m.covers m = true := by cases m <;> rfl

theorem covers_trans {l m n : Mode} (hlm : l.covers m = true) (hmn : m.covers n = true) :
    l.covers n = true := by
  cases l <;> cases n <;> cases m <;> simp [covers] at hlm hmn ⊢

theorem covers_join_left (m n : Mode) : (m.join n).covers m = true := by
  cases m <;> cases n <;> rfl

theorem covers_join_right (m n : Mode) : (m.join n).covers n = true := by
  cases m <;> cases n <;> rfl

end Mode

/-- What an analyzer is given: the text, the file it belongs to, how deep to go,
and the analysis on record. -/
structure Request where
  text : String
  file : Option String
  mode : Mode
  prior : Option Analysis
deriving DecidableEq, Repr, Inhabited

/-- What an analyzer does with a request. -/
inductive Answer where
  | found (analysis : Analysis)
  | failed (failure : Failure)
  /-- The analyzer broke down, with a message or without one. -/
  | brokeDown (message : Option String)
deriving Repr

/-- An analyzer. -/
abbrev Analyzer := Request → Answer

/-- What a pass ends with. -/
abbrev Outcome := Except Failure Analysis

/-- Runs an analyzer. A breakdown without a message has a message of its own. -/
def Analyzer.run (analyzer : Analyzer) (request : Request) : Outcome :=
  match analyzer request with
  | .brokeDown message => .error (.crashed (message.getD "non-string panic payload"))
  | .failed failure => .error failure
  | .found analysis =>
    match analysis.defect? with
    | some defect => .error (.malformed defect.message)
    | none => .ok analysis

/-- Only well-formed analyses come out of a run, whatever the analyzer does. -/
theorem Analyzer.wellFormed_of_run_eq_ok {analyzer : Analyzer} {request : Request}
    {analysis : Analysis} (h : analyzer.run request = .ok analysis) : analysis.WellFormed := by
  unfold Analyzer.run at h
  split at h
  · cases h
  · cases h
  · split at h
    · cases h
    · next hd => cases h; exact Analysis.defect?_eq_none_iff.1 hd

/-! ## The built-in analyzer -/

/-- The procedures of a text, ascribed to `file`. -/
def ownProcedures (s : Structure) (file : Option String) : List Procedure :=
  s.procedures.map ({ · with file })

/-- The procedures that the prior analysis found in other files and that the
text does not name itself: these come from headers and stay known. -/
def importedProcedures (own : List Procedure) (prior : Option Analysis) (file : Option String) :
    List Procedure :=
  (prior.getD {}).procedures.filter fun p =>
    !p.isIn file && own.all fun q => !q.isNamed p.name

/-- The names that a text makes known. -/
def namesOf (s : Structure) (file : Option String) (prior : Option Analysis) : Analysis :=
  let own := ownProcedures s file
  { procedures := own ++ importedProcedures own prior file
    macros := s.macros
    blocks := s.blocks
    parsed := true }

/-- The diagnostics for what is wrong with the structure of a text: an error for
each issue and a warning for each procedure without a body. -/
def structureDiagnostics (s : Structure) (file : Option String) : List Diagnostic :=
  let errors := s.issues.map fun i =>
    ⟨.error, file, i.line, i.column, i.length, i.problem.message⟩
  let warnings := (s.procedures.filter (!·.isDefined)).map fun p =>
    ⟨.warning, file, p.declaredAt, 0, 0,
      "procedure `" ++ p.name ++ "` is declared but never defined"⟩
  (errors ++ warnings).mergeSort Diagnostic.listedBefore

/-- The minimal pass: the names and no diagnostics. -/
def nameAnalyzer : Analyzer := fun request =>
  .found (namesOf (.ofText request.text.toList) request.file request.prior)

/-- The full pass: the names and what is wrong with the structure. -/
def structureAnalyzer : Analyzer := fun request =>
  let s := Structure.ofText request.text.toList
  .found { namesOf s request.file request.prior with
    diagnostics := structureDiagnostics s request.file
    hasError := !s.issues.isEmpty }

/-- The analyzer that goes with the application. -/
def builtinAnalyzer : Analyzer := fun request =>
  match request.mode with
  | .minimal => nameAnalyzer request
  | .full => structureAnalyzer request

end ScriptDesk
