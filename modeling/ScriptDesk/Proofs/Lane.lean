import ScriptDesk.Editor.Command
import ScriptDesk.Proofs.Agreement
import ScriptDesk.Proofs.Armed
import ScriptDesk.Proofs.Flight

/-!
# ScriptDesk.Proofs.Lane

The editor as one open document sees it. A `Lane` holds the document with its
share of everything that is common to all documents: its deadlines, its turn in
the queue, the pass on it, whether it is shown, and what was told about it.

Everything that can happen to a document is a step of its lane. `Lane.Act` is
what is done to it, `Lane.Advance` is what the passes do. What holds of a fresh
lane and is kept by every step holds of every open document after every run
(`ScriptDesk.Proofs.Simulation`), so the properties of the editor that are about
one document at a time are proved about lanes.
-/

namespace ScriptDesk

/-- The share of a document in everything that is common to all documents. -/
structure Share where
  deadlines : Deadlines := {}
  /-- The modes in which the document waits for the place for passes. -/
  waiting : List Mode := []
  /-- The place for passes; a pass on another document leaves it free. -/
  slot : Slot := .free
  /-- What was told about the document, oldest first. -/
  told : List Event := []

/-- The editor as one open document sees it. -/
structure Lane extends Share where
  session : Session
  shown : Bool

namespace Editor

/-- What was told about a document, oldest first. -/
def told (e : Editor) (id : DocumentId) : List Event := e.outbox.filter (·.document = id)

def share (e : Editor) (id : DocumentId) : Share where
  deadlines := e.debouncer.deadlines id
  waiting := e.flight.waiting id
  slot := e.flight.slot.seenBy id
  told := e.told id

def lane (e : Editor) (s : Session) : Lane :=
  { e.share s.id with session := s, shown := e.isShown s.id }

end Editor

namespace Lane

/-! ## Changes of a lane -/

def tell (l : Lane) (event : Event) : Lane := { l with told := l.told ++ [event] }

def setTracking (l : Lane) (tracking : Tracking) : Lane :=
  { l with session := { l.session with tracking } }

def setHistory (l : Lane) (history : History) : Lane :=
  { l with session := { l.session with history } }

def publishStatus (l : Lane) : Lane :=
  if l.shown then l.tell (.statusChanged l.session.id l.session.tracking.status) else l

/-- A pass starts on the document as it is. -/
def launch (l : Lane) (task : Nat) (mode : Mode) : Lane :=
  let noted := l.session.tracking.noteStart mode
  let launched :=
    { l.setTracking noted with
      waiting := l.waiting.filter (!mode.covers ·)
      slot := .running task (l.session.snapshot mode) }
  if noted.status = l.session.tracking.status then launched else launched.publishStatus

/-- A pass is requested: it starts if the place is free, which also needs that no
other document has it, and the document waits for it otherwise. -/
inductive Requests (mode : Mode) (l : Lane) : Lane → Prop where
  | started (task : Nat) (h : l.slot = .free) : Requests mode l (l.launch task mode)
  | queued : Requests mode l { l with waiting := requeue l.waiting mode }

def edit (l : Lane) (policy : Policy) (now : Time) (edits : List TextEdit) : Lane :=
  let tracking := l.session.tracking.noteEdit
  let edited :=
    { l with
      session :=
        { l.session with
          text := TextEdit.applyAll l.session.text edits
          modified := true
          tracking }
      deadlines := .after now (policy.arm .typing tracking.enabled) }
  if l.session.tracking.status = .updatePending then edited else edited.publishStatus

/-- The document has to be analyzed anew, after the delays of a trigger. -/
def rearm (l : Lane) (policy : Policy) (now : Time) (trigger : Trigger) (modified : Bool) : Lane :=
  { l with
    session := { l.session with modified, tracking := l.session.tracking.invalidate }
    deadlines := .after now (policy.arm trigger l.session.tracking.enabled) }

/-- The document has to be analyzed anew, without waiting for its deadlines. -/
def forced (l : Lane) : Lane :=
  { l.setTracking l.session.tracking.invalidate with deadlines := {} }

/-- Tells the analysis that went on record while the document was hidden. -/
def tellMissed (l : Lane) (s : Session) : Lane :=
  match s.tracking.viewsStale, s.tracking.analysis with
  | true, some analysis => l.tell (.analysisApplied s.id analysis)
  | _, _ => l

def activate (l : Lane) : Lane :=
  let s := l.session
  let seen := { l.setTracking { s.tracking with viewsStale := false } with shown := true }
  ((seen.tellMissed s).tell (.statusChanged s.id s.tracking.status)).tell
    (.affordancesChanged s.id s.history.affordances)

def moveCaret (l : Lane) (position : Position) : Lane :=
  let history := (l.session.history.record position).2
  let moved := l.setHistory history
  if history.affordances = l.session.history.affordances then moved
  else moved.tell (.affordancesChanged l.session.id history.affordances)

def replay (l : Lane) (target : Option Position) (history : History) : Lane :=
  let moved := l.setHistory history
  match target with
  | some position =>
    (moved.tell (.jump l.session.id position false)).tell
      (.affordancesChanged l.session.id history.affordances)
  | none => moved

/-- The completion of the pass on the document is taken in. -/
def takeIn (l : Lane) (done : Completion) : Lane :=
  let settled := l.session.tracking.settle done l.shown
  let taken := { l.setTracking settled.2 with slot := .free }
  match settled.1, settled.2.analysis with
  | .applied true _, some analysis =>
    (taken.tell (.analysisApplied l.session.id analysis)).publishStatus
  | .applied _ _, _ => taken.publishStatus
  | _, _ => taken

/-- A deadline of the document was let through. -/
def fired (l : Lane) (mode : Mode) : Lane :=
  { l with deadlines := l.deadlines.afterFiring mode l.session.tracking.enabled }

/-! ## Steps -/

/-- What is done to the document. -/
inductive Act (policy : Policy) (l : Lane) : Lane → Prop where
  | edit (now : Time) (edits : List TextEdit) : Act policy l (l.edit policy now edits)
  | saved (now : Time) : Act policy l (l.rearm policy now .save false)
  | structural (now : Time) : Act policy l (l.rearm policy now .structural l.session.modified)
  | force {l' : Lane} (h : Requests l.session.tracking.mode l.forced l') : Act policy l l'
  | enable {l' : Lane} (on : Bool) (hne : l.session.tracking.enabled ≠ on)
      (h : Requests (l.session.tracking.setEnabled on).mode
        (l.setTracking (l.session.tracking.setEnabled on)).forced l') : Act policy l l'
  | activate : Act policy l l.activate
  /-- Another document is shown. -/
  | hide : Act policy l { l with shown := false }
  | moveCaret (position : Position) : Act policy l (l.moveCaret position)
  | goBack : Act policy l (l.replay l.session.history.back.1 l.session.history.back.2)
  | goForward : Act policy l (l.replay l.session.history.forward.1 l.session.history.forward.2)
  | markNext (nextMove : NextMove) : Act policy l (l.setHistory (l.session.history.mark nextMove))
  | setRecording (on : Bool) : Act policy l (l.setHistory (l.session.history.setRecording on))

/-- What the passes do, with one of the `known` analyzers. -/
inductive Advance (known : Analyzer → Prop) (l : Lane) : Lane → Prop where
  /-- The running pass ends. -/
  | finish (analyzer : Analyzer) (h : known analyzer) :
      Advance known l { l with slot := SingleFlight.finishSlot analyzer l.slot }
  | takeIn (done : Completion) (h : l.slot = .finished done) : Advance known l (l.takeIn done)
  /-- The turn of the document has come. -/
  | startQueued (task : Nat) {mode : Mode} {rest : List Mode} (hw : l.waiting = mode :: rest)
      (h : l.slot = .free) :
      Advance known l ({ l with waiting := rest }.launch task
        (if l.session.tracking.enabled then mode else .minimal))
  /-- A deadline has passed, and the document needs an analysis. -/
  | startDue (task : Nat) {now deadline : Time} {mode : Mode}
      (hd : l.deadlines.due? now l.session.tracking.enabled = some (deadline, mode))
      (hn : l.session.tracking.needsAnalysis = true) (h : l.slot = .free) :
      Advance known l ((l.fired mode).launch task mode)
  /-- A deadline has passed, but the document needs no analysis by now. -/
  | upToDate {now deadline : Time} {mode : Mode}
      (hd : l.deadlines.due? now l.session.tracking.enabled = some (deadline, mode))
      (hn : l.session.tracking.needsAnalysis = false) (h : l.slot = .free) :
      Advance known l (l.fired mode)

/-- A step of a lane. -/
inductive Step (policy : Policy) (known : Analyzer → Prop) (l l' : Lane) : Prop where
  | act (h : Act policy l l')
  | advance (h : Advance known l l')

/-- The lane of a document that is being opened. -/
def fresh (id : DocumentId) (path : Option String) (text : String) (config : Config)
    (shown : Bool) : Lane where
  session := .new id path text config.analysis.enabled config.navigation.coalesceLines
  shown := shown

/-- The lane of a document that has just been opened: its first pass was
requested. -/
def Opened (config : Config) (l : Lane) : Prop :=
  ∃ id path text shown, Requests (fresh id path text config shown).session.tracking.mode
    (fresh id path text config shown) l

/-! ## What the changes leave as it was -/

variable (l : Lane)

@[simp] theorem session_tell (event : Event) : (l.tell event).session = l.session := rfl

@[simp] theorem deadlines_tell (event : Event) : (l.tell event).deadlines = l.deadlines := rfl

@[simp] theorem waiting_tell (event : Event) : (l.tell event).waiting = l.waiting := rfl

@[simp] theorem slot_tell (event : Event) : (l.tell event).slot = l.slot := rfl

@[simp] theorem shown_tell (event : Event) : (l.tell event).shown = l.shown := rfl

@[simp] theorem session_publishStatus : l.publishStatus.session = l.session := by
  unfold publishStatus; split <;> rfl

@[simp] theorem deadlines_publishStatus : l.publishStatus.deadlines = l.deadlines := by
  unfold publishStatus; split <;> rfl

@[simp] theorem waiting_publishStatus : l.publishStatus.waiting = l.waiting := by
  unfold publishStatus; split <;> rfl

@[simp] theorem slot_publishStatus : l.publishStatus.slot = l.slot := by
  unfold publishStatus; split <;> rfl

@[simp] theorem shown_publishStatus : l.publishStatus.shown = l.shown := by
  unfold publishStatus; split <;> rfl

@[simp] theorem session_launch (task : Nat) (mode : Mode) :
    (l.launch task mode).session =
      { l.session with tracking := l.session.tracking.noteStart mode } := by
  unfold launch; dsimp only; split <;> simp [setTracking]

@[simp] theorem deadlines_launch (task : Nat) (mode : Mode) :
    (l.launch task mode).deadlines = l.deadlines := by
  unfold launch; dsimp only; split <;> simp [setTracking]

@[simp] theorem waiting_launch (task : Nat) (mode : Mode) :
    (l.launch task mode).waiting = l.waiting.filter (!mode.covers ·) := by
  unfold launch; dsimp only; split <;> simp

@[simp] theorem slot_launch (task : Nat) (mode : Mode) :
    (l.launch task mode).slot = .running task (l.session.snapshot mode) := by
  unfold launch; dsimp only; split <;> simp

/-- Showing the document changes what is told and what is kept about its views. -/
theorem activate_keeps :
    l.activate.session =
        { l.session with tracking := { l.session.tracking with viewsStale := false } } ∧
      l.activate.deadlines = l.deadlines ∧ l.activate.waiting = l.waiting ∧
      l.activate.slot = l.slot := by
  unfold activate tellMissed
  dsimp only
  split <;> exact ⟨rfl, rfl, rfl, rfl⟩

/-- Taking in a completion changes what is kept about the analysis, the slot, and
what was told. -/
theorem takeIn_keeps (done : Completion) :
    (l.takeIn done).session =
        { l.session with tracking := (l.session.tracking.settle done l.shown).2 } ∧
      (l.takeIn done).deadlines = l.deadlines ∧ (l.takeIn done).waiting = l.waiting ∧
      (l.takeIn done).slot = .free ∧ (l.takeIn done).shown = l.shown := by
  unfold takeIn
  dsimp only
  split <;> simp [setTracking]

end Lane

end ScriptDesk
