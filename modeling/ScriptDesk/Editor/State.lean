import ScriptDesk.Analysis.Fold
import ScriptDesk.Analysis.Outline
import ScriptDesk.Config
import ScriptDesk.Document.Session
import ScriptDesk.Schedule.Debouncer

/-!
# ScriptDesk.Editor.State

The editor: all open documents, the debouncer, and the place where passes run.
What the surface around the editor has to be told lies in the outbox, oldest
first; every change of the editor only adds to it.
-/

namespace ScriptDesk

/-- What the surface around the editor is told. -/
inductive Event where
  /-- The views of a document have to show this analysis. -/
  | analysisApplied (document : DocumentId) (analysis : Analysis)
  | statusChanged (document : DocumentId) (status : Status)
  /-- The caret has to go to a position. A jump that comes from the history is not
  `recordable`. -/
  | jump (document : DocumentId) (position : Position) (recordable : Bool)
  | affordancesChanged (document : DocumentId) (affordances : Affordances)
deriving DecidableEq, Repr

/-- The document that an event is about. -/
def Event.document : Event → DocumentId
  | .analysisApplied id _ | .statusChanged id _ | .jump id _ _ | .affordancesChanged id _ => id

/-- The editor. -/
structure Editor where
  config : Config := {}
  /-- How many documents were ever opened. -/
  opened : Nat := 0
  /-- The open documents, in the order in which they were opened. -/
  sessions : List Session := []
  /-- The document that is shown. -/
  active : Option DocumentId := none
  debouncer : Debouncer := {}
  flight : SingleFlight := {}
  outbox : List Event := []
deriving Repr, Inhabited

namespace Editor

/-- An editor without documents. -/
def new (config : Config) : Editor :=
  { config, debouncer := { policy := config.analysis.policy } }

/-! ## Questions -/

/-- An open document. -/
def session? (e : Editor) (id : DocumentId) : Option Session := e.sessions.find? (·.id = id)

/-- The document is open. -/
def isOpen (e : Editor) (id : DocumentId) : Bool := (e.session? id).isSome

/-- The document is the one that is shown. -/
def isShown (e : Editor) (id : DocumentId) : Bool := e.active = some id

/-- Whether full analysis is on for a document, if it is open. -/
def enabled? (e : Editor) (id : DocumentId) : Option Bool :=
  (e.session? id).map (·.tracking.enabled)

/-- The analysis on record for a document. -/
def analysis? (e : Editor) (id : DocumentId) : Option Analysis :=
  (e.session? id).bind (·.tracking.analysis)

/-- The status of a document. -/
def status? (e : Editor) (id : DocumentId) : Option Status :=
  (e.session? id).map (·.tracking.status)

/-- The folds of a document. -/
def folds (e : Editor) (id : DocumentId) : List Fold :=
  match e.session? id with
  | some s => (s.tracking.analysis.map (·.folds s.path)).getD []
  | none => []

/-- The outline of a document. -/
def outline (e : Editor) (id : DocumentId) : List OutlineEntry :=
  ((e.analysis? id).map (·.outline)).getD []

/-- The instant at which something is due next. -/
def nextWakeup? (e : Editor) : Option Time := e.debouncer.next?

/-- A pass is under way or queued. -/
def isAnalyzing (e : Editor) : Bool := e.flight.isBusy || !e.flight.queue.isEmpty

/-- Nothing is under way, queued or armed. -/
def isIdle (e : Editor) : Bool := !e.isAnalyzing && e.nextWakeup?.isNone

/-! ## Changes -/

/-- Puts an event into the outbox. -/
def emit (e : Editor) (event : Event) : Editor := { e with outbox := e.outbox ++ [event] }

/-- Empties the outbox. -/
def takeEvents (e : Editor) : List Event × Editor := (e.outbox, { e with outbox := [] })

/-- Replaces an open document by a later state of it. -/
def setSession (e : Editor) (s : Session) : Editor :=
  { e with sessions := e.sessions.map fun old => if old.id = s.id then s else old }

/-- Tells the status of a document if it is shown. -/
def publishStatus (e : Editor) (s : Session) : Editor :=
  if e.isShown s.id then e.emit (.statusChanged s.id s.tracking.status) else e

@[simp] theorem sessions_emit (e : Editor) (event : Event) :
    (e.emit event).sessions = e.sessions := rfl

@[simp] theorem sessions_publishStatus (e : Editor) (s : Session) :
    (e.publishStatus s).sessions = e.sessions := by
  unfold publishStatus; split <;> rfl

/-- Replacing a document leaves the others as they are. -/
theorem session?_setSession_of_ne {e : Editor} {s : Session} {id : DocumentId} (h : id ≠ s.id) :
    (e.setSession s).session? id = e.session? id := by
  unfold session? setSession
  simp only
  induction e.sessions with
  | nil => rfl
  | cons old rest ih =>
    by_cases ho : old.id = s.id
    · have h1 : (decide (s.id = id)) = false := by simpa using fun h' => h h'.symm
      have h2 : (decide (old.id = id)) = false := by rw [ho]; exact h1
      simp only [List.map_cons, ho, if_pos, List.find?_cons, h1]
      rw [ih]
    · simp only [List.map_cons, if_neg ho, List.find?_cons]
      rw [ih]

end Editor

end ScriptDesk
