import ScriptDesk.Editor.Action

/-!
# ScriptDesk.Editor.Command

The commands of the editor, and runs of them. Time and the end of passes come
from outside, so they are commands too: a run is determined by its commands.
-/

namespace ScriptDesk

/-- A command to the editor. -/
inductive Command where
  | openDocument (path : Option String) (text : String)
  /-- Do something to a document. -/
  | act (document : DocumentId) (action : Action)
  /-- The running pass ends, with what this analyzer makes of it. -/
  | finishPass (analyzer : Analyzer)
  | tick (now : Time)

/-- What a command answers. -/
inductive Response where
  | opened (document : DocumentId)
  | reply (reply : Reply)
  /-- The document is not open; nothing was done. -/
  | unknownDocument (document : DocumentId)
  /-- Whether there was a pass to end. -/
  | passEnded (wasRunning : Bool)
  | ticked (report : TickReport)
deriving DecidableEq, Repr

/-- The wording for a document that is not open. -/
def unknownDocumentMessage (document : DocumentId) : String :=
  "unknown document " ++ document.label

namespace Editor

/-- Opens a document and requests its first pass. The first document is shown. -/
def openDocument (e : Editor) (path : Option String) (text : String) : DocumentId × Editor :=
  let id : DocumentId := ⟨e.opened + 1⟩
  let s := Session.new id path text e.config.analysis.enabled e.config.navigation.coalesceLines
  let e :=
    { e with
      opened := e.opened + 1
      sessions := e.sessions ++ [s]
      active := e.active <|> some id }
  (id, e.requestNow s)

/-- Lets the running pass end. -/
def finishPass (e : Editor) (analyzer : Analyzer) : Bool × Editor :=
  let (wasRunning, flight) := e.flight.finish analyzer
  (wasRunning, { e with flight })

/-- Carries out a command. -/
def perform (e : Editor) : Command → Response × Editor
  | .openDocument path text => let (id, e) := e.openDocument path text; (.opened id, e)
  | .act id action =>
    match e.session? id with
    | some s => let (reply, e) := e.act s action; (.reply reply, e)
    | none => (.unknownDocument id, e)
  | .finishPass analyzer => let (ended, e) := e.finishPass analyzer; (.passEnded ended, e)
  | .tick now => let (report, e) := e.tick now; (.ticked report, e)

/-- The editor after a run of commands. -/
def run (e : Editor) (commands : List Command) : Editor :=
  commands.foldl (fun e c => (e.perform c).2) e

/-- A command to a document that is not open changes nothing. -/
theorem perform_act_of_not_open {e : Editor} {id : DocumentId} (action : Action)
    (h : e.session? id = none) : e.perform (.act id action) = (.unknownDocument id, e) := by
  simp [perform, h]

end Editor

end ScriptDesk
