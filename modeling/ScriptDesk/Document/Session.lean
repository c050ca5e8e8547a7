import ScriptDesk.Document.Tracking
import ScriptDesk.Navigation.History

/-!
# ScriptDesk.Document.Session

One open document: its text with what is kept about its analysis and the caret.
-/

namespace ScriptDesk

/-- An open document. -/
structure Session where
  id : DocumentId
  /-- The file of the document; an unsaved one has none. -/
  path : Option String
  text : String
  tracking : Tracking
  history : History
  /-- The text was edited since it was saved. -/
  modified : Bool := false
deriving Repr, Inhabited

namespace Session

/-- A document as it is opened. -/
def new (id : DocumentId) (path : Option String) (text : String) (enabled : Bool)
    (radius : Nat) : Session :=
  { id, path, text
    tracking := { enabled, hasFile := path.isSome }
    history := { radius } }

/-- What a pass in that mode reads of the document. -/
def snapshot (s : Session) (mode : Mode) : Snapshot :=
  { document := s.id
    version := s.tracking.version
    request := { text := s.text, file := s.path, mode, prior := s.tracking.analysis } }

@[simp] theorem document_snapshot (s : Session) (mode : Mode) :
    (s.snapshot mode).document = s.id := rfl

@[simp] theorem version_snapshot (s : Session) (mode : Mode) :
    (s.snapshot mode).version = s.tracking.version := rfl

@[simp] theorem mode_snapshot (s : Session) (mode : Mode) :
    (s.snapshot mode).mode = mode := rfl

end Session

end ScriptDesk
