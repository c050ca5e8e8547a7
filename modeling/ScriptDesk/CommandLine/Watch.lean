import ScriptDesk.CommandLine.Report
import ScriptDesk.Editor.Quiescence

/-!
# ScriptDesk.CommandLine.Watch

Reports on the documents of an editor, and watching one file: whenever its
content changes it is taken as edited and saved, and whenever its views have to
be refreshed a report is printed.
-/

namespace ScriptDesk

/-- The report on a document as it is. One without a file goes by its label. -/
def Editor.report (e : Editor) (id : DocumentId) : Report :=
  { name := ((e.session? id).bind (·.path)).getD id.label
    status := (e.status? id).getD .idle
    analysis := e.analysis? id
    folds := e.folds id
    outline := e.outline id }

/-- The documents whose views have to be refreshed, each once, in the order of the
first event that asks for it. -/
def refreshedDocuments (events : List Event) : List DocumentId :=
  (events.filterMap fun
    | .analysisApplied id _ => some id
    | _ => none).eraseDups

/-- A file that is being watched. -/
structure Watch where
  editor : Editor
  document : DocumentId
  now : Time := 0
deriving Repr, Inhabited

namespace Watch

/-- Starts watching a file with its present content. -/
def start (config : Config) (path content : String) : Watch :=
  let (document, editor) := (Editor.new config).openDocument (some path) content
  { editor, document }

/-- Notes that the file has a new content. -/
def notice (w : Watch) (content : String) : Watch :=
  let edit := Command.act w.document (.edit w.now [.replaceAll content])
  let save := Command.act w.document (.saved w.now)
  { w with editor := w.editor.run [edit, save] }

/-- Moves on to an instant. Answers the reports to print. -/
def turn (w : Watch) (now : Time) : List Report × Watch :=
  let (_, editor) := w.editor.tick now
  let (events, editor) := editor.takeEvents
  ((refreshedDocuments events).map editor.report, { w with editor, now })

/-- Lets the running pass end and moves on to the instant at which something is
due. -/
def advance (w : Watch) : List Report × Watch :=
  let at_ := w.editor.nextTick w.now
  { w with editor := (w.editor.finishPass builtinAnalyzer).2 }.turn at_

/-- Moves on at most `fuel` times, until there is nothing left to do. Answers
everything printed on the way. -/
def restWithin : (fuel : Nat) → Watch → List Report × Watch
  | 0, w => ([], w)
  | fuel + 1, w =>
    if w.editor.isIdle then ([], w)
    else
      let (printed, w) := w.advance
      let (later, w) := restWithin fuel w
      (printed ++ later, w)

/-- Moves on until there is nothing left to do. -/
def rest (w : Watch) : List Report × Watch := restWithin w.editor.workLeft w

/-- Everything printed when each of some contents is noticed after all reports on
the one before it. -/
def follow (w : Watch) : List String → List Report
  | [] => []
  | content :: later =>
    let (printed, w) := (w.notice content).rest
    printed ++ follow w later

/-- Everything printed from the start until all later contents are reported. -/
def reports (config : Config) (path content : String) (later : List String) : List Report :=
  let (printed, w) := (start config path content).rest
  printed ++ w.follow later

end Watch

end ScriptDesk
