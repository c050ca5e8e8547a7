import ScriptDesk.Analysis.Fold
import ScriptDesk.Analysis.Outline
import ScriptDesk.Analysis.Status

/-!
# ScriptDesk.CommandLine.Report

The printed report on a document: a line with its name and status, then the
outline, the folds and the diagnostics, each section only if it has entries.
Without an analysis only the first line is printed.
-/

namespace ScriptDesk

/-- Everything printed about a document. -/
structure Report where
  name : String
  status : Status
  analysis : Option Analysis
  folds : List Fold
  outline : List OutlineEntry
deriving Repr

namespace Report

/-- The line for an outline entry. -/
def outlineLine : OutlineEntry → String
  | .procedure name line true => "    proc  " ++ name ++ " @" ++ toString line
  | .procedure name line false => "    proc  " ++ name ++ " @" ++ toString line ++ " (declared)"
  | .macroName name line => "    macro " ++ name ++ " @" ++ toString line

/-- What is added to the line for a fold that is no body. -/
def foldMarker : FoldKind → String
  | .procedure => ""
  | .declarations => " (region)"
  | .variables => " (variables)"

/-- The line for a fold. -/
def foldLine (f : Fold) : String :=
  "    " ++ toString f.range.first ++ "-" ++ toString f.range.last ++ " " ++ f.label ++
    foldMarker f.kind

/-- The line for a diagnostic; one without a line is printed without a place. -/
def diagnosticLine (d : Diagnostic) : String :=
  if d.line = 0 then "    " ++ d.severity.label ++ ": " ++ d.message
  else
    "    " ++ d.severity.label ++ " " ++ toString d.line ++ ":" ++ toString d.column ++ ": " ++
      d.message

/-- A section with its title, or nothing if it has no entries. -/
def sectionLines (title : String) (entries : List String) : List String :=
  if entries.isEmpty then [] else ("  " ++ title ++ ":") :: entries

/-- The lines of a report. -/
def lines (r : Report) : List String :=
  (r.name ++ ": " ++ r.status.text) ::
    match r.analysis with
    | none => []
    | some a =>
      sectionLines "outline" (r.outline.map outlineLine) ++
        sectionLines "folds" (r.folds.map foldLine) ++
        sectionLines "diagnostics" (a.diagnostics.map diagnosticLine)

/-- The report as it is printed: every line is ended. -/
def render (r : Report) : String := String.join (r.lines.map (· ++ "\n"))

end Report

end ScriptDesk
