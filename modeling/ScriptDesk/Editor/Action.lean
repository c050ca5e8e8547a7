import ScriptDesk.Document.TextEdit
import ScriptDesk.Editor.Passes

/-!
# ScriptDesk.Editor.Action

What can be done to one open document. Every action answers something and leaves
the other documents alone.
-/

namespace ScriptDesk

/-- Something done to a document. -/
inductive Action where
  | close
  /-- Show it. -/
  | activate
  | edit (now : Time) (edits : List TextEdit)
  /-- Note that it was saved. -/
  | saved (now : Time)
  /-- Note that a command changed its structure. -/
  | structural (now : Time)
  /-- Analyze it without waiting. -/
  | force
  /-- Turn full analysis on or off. -/
  | enable (on : Bool)
  /-- Note that the caret has moved. -/
  | moveCaret (position : Position)
  | goBack
  | goForward
  /-- Say how the next caret move is treated. -/
  | markNext (nextMove : NextMove)
  /-- Turn the recording of caret moves on or off. -/
  | setRecording (on : Bool)
deriving Repr

/-- What an action answers. -/
inductive Reply where
  | done
  /-- The version of the text that an edit made. -/
  | version (n : Nat)
  | moved (outcome : MoveOutcome)
  /-- Where the caret has to go, if anywhere. -/
  | position (p : Option Position)
deriving DecidableEq, Repr

namespace Editor

/-- Closes a document. Its deadlines and its place in the queue go; a pass under
way goes on, and its completion finds the document closed. -/
def close (e : Editor) (s : Session) : Editor :=
  { e with
    sessions := e.sessions.filter (·.id ≠ s.id)
    debouncer := e.debouncer.cancel s.id
    flight := e.flight.forget s.id
    active := if e.active = some s.id then none else e.active }

/-- Shows a document. An analysis that went on record while it was hidden is told
now; status and affordances are told always. -/
def activate (e : Editor) (s : Session) : Editor :=
  let shown := { s with tracking := { s.tracking with viewsStale := false } }
  let e := { e with active := some s.id }.setSession shown
  let e :=
    match s.tracking.viewsStale, s.tracking.analysis with
    | true, some analysis => e.emit (.analysisApplied s.id analysis)
    | _, _ => e
  (e.emit (.statusChanged s.id s.tracking.status)).emit
    (.affordancesChanged s.id s.history.affordances)

/-- Arms the deadlines of a document. -/
def arm (e : Editor) (s : Session) (now : Time) (trigger : Trigger) : Editor :=
  { e with debouncer := e.debouncer.trigger s.id now trigger s.tracking.enabled }

/-- Edits the text of a document. The status is told unless it already said that
an update is pending. -/
def edit (e : Editor) (s : Session) (now : Time) (edits : List TextEdit) : Nat × Editor :=
  let edited :=
    { s with
      text := TextEdit.applyAll s.text edits
      modified := true
      tracking := s.tracking.noteEdit }
  let e := (e.setSession edited).arm edited now .typing
  (edited.tracking.version,
    if s.tracking.status = .updatePending then e else e.publishStatus edited)

/-- Notes that a document was saved. -/
def noteSaved (e : Editor) (s : Session) (now : Time) : Editor :=
  let saved := { s with modified := false, tracking := s.tracking.invalidate }
  (e.setSession saved).arm saved now .save

/-- Notes that a command changed the structure of a document. -/
def noteStructural (e : Editor) (s : Session) (now : Time) : Editor :=
  let changed := { s with tracking := s.tracking.invalidate }
  (e.setSession changed).arm changed now .structural

/-- Requests a pass on a document without waiting for its deadlines. -/
def force (e : Editor) (s : Session) : Editor :=
  let dirty := { s with tracking := s.tracking.invalidate }
  let e := e.setSession dirty
  { e with debouncer := e.debouncer.cancel s.id }.requestNow dirty

/-- Turns full analysis on or off; after a change the document is analyzed
without waiting. -/
def enable (e : Editor) (s : Session) (on : Bool) : Editor :=
  if s.tracking.enabled = on then e
  else
    let switched := { s with tracking := s.tracking.setEnabled on }
    (e.setSession switched).force switched

/-- Offers a caret move to the history of a document; affordances that change are
told. -/
def moveCaret (e : Editor) (s : Session) (position : Position) : MoveOutcome × Editor :=
  let (outcome, history) := s.history.record position
  let e := e.setSession { s with history }
  (outcome,
    if history.affordances = s.history.affordances then e
    else e.emit (.affordancesChanged s.id history.affordances))

/-- Carries out a step in the history of a document: if it leads somewhere, the
surface is told to jump there, and the affordances. -/
def replay (e : Editor) (s : Session) (target : Option Position) (history : History) : Editor :=
  let e := e.setSession { s with history }
  match target with
  | some position =>
    (e.emit (.jump s.id position false)).emit (.affordancesChanged s.id history.affordances)
  | none => e

/-- Does something to an open document. -/
def act (e : Editor) (s : Session) : Action → Reply × Editor
  | .close => (.done, e.close s)
  | .activate => (.done, e.activate s)
  | .edit now edits => let (n, e) := e.edit s now edits; (.version n, e)
  | .saved now => (.done, e.noteSaved s now)
  | .structural now => (.done, e.noteStructural s now)
  | .force => (.done, e.force s)
  | .enable on => (.done, e.enable s on)
  | .moveCaret position => let (outcome, e) := e.moveCaret s position; (.moved outcome, e)
  | .goBack =>
    let (target, history) := s.history.back
    (.position target, e.replay s target history)
  | .goForward =>
    let (target, history) := s.history.forward
    (.position target, e.replay s target history)
  | .markNext nextMove => (.done, e.setSession { s with history := s.history.mark nextMove })
  | .setRecording on => (.done, e.setSession { s with history := s.history.setRecording on })

end Editor

end ScriptDesk
