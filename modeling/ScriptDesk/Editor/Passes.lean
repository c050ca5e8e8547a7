import ScriptDesk.Editor.State

/-!
# ScriptDesk.Editor.Passes

How the editor starts passes and takes in their completions. The editor moves
only when it is told the time: a tick takes in what has been completed, then
starts a queued pass, then asks the debouncer what is due.
-/

namespace ScriptDesk

/-- What one tick did: the completions by what became of them, the passes it
started, and the due documents it left waiting. -/
structure TickReport where
  applied : Nat := 0
  stale : Nat := 0
  closed : Nat := 0
  unrecognized : Nat := 0
  started : Nat := 0
  deferred : Nat := 0
deriving DecidableEq, Repr, Inhabited

namespace Editor

/-- Requests a pass on a document. If it starts at once, the document notes it,
and a status that changes is told. Answers whether it started. -/
def start (e : Editor) (s : Session) (mode : Mode) : Bool × Editor :=
  match e.flight.request (s.snapshot mode) with
  | (.started _, flight) =>
    let noted := { s with tracking := s.tracking.noteStart mode }
    let e := { e with flight }.setSession noted
    (true, if noted.tracking.status = s.tracking.status then e else e.publishStatus noted)
  | (.queued, flight) => (false, { e with flight })

/-- Requests a pass on a document in the mode that it is in. -/
def requestNow (e : Editor) (s : Session) : Editor := (e.start s s.tracking.mode).2

/-- Takes in a completion. If it goes on record, the views and the status are
refreshed where the document is shown. -/
def takeIn (e : Editor) (done : Completion) : TickReport × Editor :=
  match e.session? done.document with
  | none => ({ closed := 1 }, e)
  | some s =>
    let (settlement, tracking) := s.tracking.settle done (e.isShown s.id)
    let settled := { s with tracking }
    let e := e.setSession settled
    match settlement, tracking.analysis with
    | .applied true _, some analysis =>
      ({ applied := 1 }, (e.emit (.analysisApplied s.id analysis)).publishStatus settled)
    | .applied _ _, _ => ({ applied := 1 }, e.publishStatus settled)
    | .stale, _ => ({ stale := 1 }, e)
    | .closed, _ => ({ closed := 1 }, e)
    | .unrecognized, _ => ({ unrecognized := 1 }, e)

/-- Takes in the completion that waits to be collected, if there is one. -/
def takeInCompleted (e : Editor) : TickReport × Editor :=
  match e.flight.collect with
  | (some done, flight) => { e with flight }.takeIn done
  | (none, _) => ({}, e)

/-- Starts a pass on the next queued document, as the document is now: with full
analysis off only the names are looked for. -/
def startQueued (e : Editor) : Bool × Editor :=
  match e.flight.dequeueOpen e.isOpen with
  | (some q, flight) =>
    let e := { e with flight }
    match e.session? q.document with
    | some s => e.start s (if s.tracking.enabled then q.mode else .minimal)
    | none => (false, e)
  | (none, flight) => (false, { e with flight })

/-- Starts the pass that is due, unless the document needs none by now. Answers
also how many due documents wait. -/
def startDue (e : Editor) (now : Time) : Bool × Nat × Editor :=
  let (poll, debouncer) := e.debouncer.poll now e.flight.isBusy e.enabled?
  let e := { e with debouncer }
  match poll.fired.bind fun (id, mode) => (e.session? id).map (·, mode) with
  | some (s, mode) =>
    if s.tracking.needsAnalysis then
      let (started, e) := e.start s mode
      (started, poll.deferred, e)
    else (false, poll.deferred, e)
  | none => (false, poll.deferred, e)

/-- Moves the editor to an instant. -/
def tick (e : Editor) (now : Time) : TickReport × Editor :=
  let (report, e) := e.takeInCompleted
  let (fromQueue, e) := e.startQueued
  let (fromDeadline, deferred, e) := e.startDue now
  ({ report with started := fromQueue.toNat + fromDeadline.toNat, deferred }, e)

end Editor

end ScriptDesk
