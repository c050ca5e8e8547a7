import ScriptDesk.Analysis.Basic

/-!
# ScriptDesk.Analysis.Status

The state of a document's analysis as it is shown to the user.
-/

namespace ScriptDesk

/-- How far the analysis of a document has come. -/
inductive Status where
  /-- Nothing is on record yet. -/
  | idle
  /-- A full pass is running. -/
  | working
  /-- The text changed since the analysis on record. -/
  | updatePending
  | complete
  | completeWithErrors
  | failed
  /-- Full analysis is off: only the names are on record. -/
  | minimalOnly
  /-- The document is unsaved: only its own names are on record. -/
  | localOnly
  /-- The document is unsaved and full analysis is off. -/
  | disabled
deriving DecidableEq, Repr, Inhabited

namespace Status

/-- The status after an analysis that settles the document. Being unsaved, and
full analysis being off, count before anything that was found. -/
def ofAnalysis (a : Analysis) (enabled hasFile : Bool) : Status :=
  match hasFile, enabled with
  | false, true => .localOnly
  | false, false => .disabled
  | true, false => .minimalOnly
  | true, true =>
    if !a.parsed then .failed else if a.hasError then .completeWithErrors else .complete

/-- The status tells of errors. -/
def isError : Status → Bool
  | .completeWithErrors | .failed => true
  | _ => false

/-- The line shown for a status. -/
def text : Status → String
  | .idle => "Parser:"
  | .working => "Parser: Working"
  | .updatePending => "Parser: Update change"
  | .complete => "Parser: Complete"
  | .completeWithErrors => "Parser: Script syntax error (see parser errors log)"
  | .failed => "Parser: Failed script parsing (see parser errors log)"
  | .minimalOnly => "Parser: Disabled [Get only macros]"
  | .localOnly => "Parser: Get only local macros"
  | .disabled => "Parser: Disabled"

/-- A status that settles a document is neither idle nor waiting nor working. -/
theorem ofAnalysis_ne_working (a : Analysis) (enabled hasFile : Bool) :
    ofAnalysis a enabled hasFile ≠ .working := by
  cases hasFile <;> cases enabled <;> cases hp : a.parsed <;> cases he : a.hasError <;>
    simp [ofAnalysis, hp, he]

end Status

end ScriptDesk
