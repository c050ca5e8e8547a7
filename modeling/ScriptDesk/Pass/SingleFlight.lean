import ScriptDesk.Analysis.Analyzer
import ScriptDesk.Document.Id

/-!
# ScriptDesk.Pass.SingleFlight

The one place where passes run. A pass is started on a snapshot of a document if
the place is free; otherwise the document is queued, and asked for a new snapshot
when its turn comes. A finished pass keeps the place until its completion is
collected, so no two passes are ever under way.
-/

namespace ScriptDesk

/-- Everything a pass reads, copied from a document. -/
structure Snapshot where
  document : DocumentId
  version : Nat
  request : Request
deriving Repr, Inhabited

/-- The mode in which the snapshot is to be analyzed. -/
def Snapshot.mode (s : Snapshot) : Mode := s.request.mode

/-- What a pass ended with. -/
structure Completion where
  task : Nat
  document : DocumentId
  version : Nat
  mode : Mode
  outcome : Outcome
deriving Repr

/-- The place where passes run. -/
inductive Slot where
  | free
  | running (task : Nat) (snapshot : Snapshot)
  /-- The pass has ended, and its completion waits to be collected. -/
  | finished (completion : Completion)
deriving Repr, Inhabited

/-- A document that waits for the place, and the mode it was requested in. -/
structure Queued where
  document : DocumentId
  mode : Mode
deriving DecidableEq, Repr, Inhabited

/-- What became of a request. -/
inductive RequestOutcome where
  | started (task : Nat)
  | queued
deriving DecidableEq, Repr, Inhabited

/-- The place for passes with the documents that wait for it. -/
structure SingleFlight where
  slot : Slot := .free
  queue : List Queued := []
  nextTask : Nat := 0
deriving Repr, Inhabited

namespace SingleFlight

/-- The place is taken. -/
def isBusy (f : SingleFlight) : Bool :=
  match f.slot with
  | .free => false
  | .running _ _ | .finished _ => true

/-- The document, version and mode of the pass that takes the place. -/
def inFlight? (f : SingleFlight) : Option (DocumentId × Nat × Mode) :=
  match f.slot with
  | .free => none
  | .running _ s => some (s.document, s.version, s.mode)
  | .finished c => some (c.document, c.version, c.mode)

/-- The document waits for the place. -/
def isQueued (f : SingleFlight) (id : DocumentId) : Bool := f.queue.any (·.document = id)

/-- Queues a document. One that waits already keeps its turn and takes the
greater of the modes. -/
def enqueue (f : SingleFlight) (id : DocumentId) (mode : Mode) : SingleFlight :=
  { f with
    queue :=
      if f.isQueued id then
        f.queue.map fun q => if q.document = id then { q with mode := q.mode.join mode } else q
      else f.queue ++ [⟨id, mode⟩] }

/-- Takes off the queue what a pass of that mode answers. -/
def dropCovered (f : SingleFlight) (id : DocumentId) (mode : Mode) : SingleFlight :=
  { f with queue := f.queue.filter fun q => !(q.document = id && mode.covers q.mode) }

/-- Starts a pass on the snapshot if the place is free, and queues the document
otherwise. -/
def request (f : SingleFlight) (s : Snapshot) : RequestOutcome × SingleFlight :=
  match f.slot with
  | .free =>
    (.started f.nextTask,
      { f.dropCovered s.document s.mode with
        slot := .running f.nextTask s, nextTask := f.nextTask + 1 })
  | .running _ _ | .finished _ => (.queued, f.enqueue s.document s.mode)

/-- Lets the running pass end, with what the analyzer makes of its snapshot.
Answers whether there was one. -/
def finish (f : SingleFlight) (analyzer : Analyzer) : Bool × SingleFlight :=
  match f.slot with
  | .running task s =>
    (true, { f with
      slot := .finished ⟨task, s.document, s.version, s.mode, analyzer.run s.request⟩ })
  | .free | .finished _ => (false, f)

/-- Collects the completion of a pass that has ended, which frees the place. -/
def collect (f : SingleFlight) : Option Completion × SingleFlight :=
  match f.slot with
  | .finished c => (some c, { f with slot := .free })
  | .free | .running _ _ => (none, f)

/-- Takes the next open document off the queue if the place is free. Closed
documents in front of it are taken off too. -/
def dequeueOpen (f : SingleFlight) (isOpen : DocumentId → Bool) : Option Queued × SingleFlight :=
  match f.slot with
  | .free =>
    match f.queue.dropWhile fun q => !isOpen q.document with
    | q :: rest => (some q, { f with queue := rest })
    | [] => (none, { f with queue := [] })
  | .running _ _ | .finished _ => (none, f)

/-- Takes the next document off the queue if the place is free. -/
def dequeue (f : SingleFlight) : Option Queued × SingleFlight := f.dequeueOpen fun _ => true

/-- Takes a document off the queue. A pass on it goes on. -/
def forget (f : SingleFlight) (id : DocumentId) : SingleFlight :=
  { f with queue := f.queue.filter (·.document ≠ id) }

/-- A request starts a pass exactly if the place was free. -/
theorem request_fst (f : SingleFlight) (s : Snapshot) :
    (f.request s).1 = if f.isBusy then .queued else .started f.nextTask := by
  unfold request isBusy
  split <;> simp_all

/-- After a request the place is taken. -/
theorem isBusy_request (f : SingleFlight) (s : Snapshot) : (f.request s).2.isBusy = true := by
  unfold request
  split <;> simp_all [isBusy, enqueue]

theorem isBusy_iff_inFlight? (f : SingleFlight) : f.isBusy = f.inFlight?.isSome := by
  unfold isBusy inFlight?; split <;> simp_all

end SingleFlight

end ScriptDesk
