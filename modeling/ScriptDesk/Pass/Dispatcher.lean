import Mathlib.Algebra.Group.Nat.Defs
import ScriptDesk.Pass.Call

/-!
# ScriptDesk.Pass.Dispatcher

The place for passes as its threads share it. `SingleFlight` lets a pass end in one step;
here the thread of a pass first gives the permit back and later sends its completion, and
the pass is off the record only when its completion is read from the mailbox. So two
things guard the place, the record and the permit, and they are set free at different
times by different threads. A step is what one thread does at once; reading the mailbox
is one step, since what is sent meanwhile is read as if it had been sent before.
-/

namespace ScriptDesk

/-- What is on record of the pass that was started. -/
structure Ticket where
  task : Nat
  document : DocumentId
  version : Nat
  mode : Mode
deriving DecidableEq, Repr

/-- A pass, by its number and the snapshot it reads. -/
structure Pass where
  task : Nat
  snapshot : Snapshot
deriving Repr

namespace Pass

def ticket (p : Pass) : Ticket :=
  ⟨p.task, p.snapshot.document, p.snapshot.version, p.snapshot.mode⟩

/-- The completion of the pass, with what the analyzer makes of its snapshot. -/
def conclude (p : Pass) (analyzer : Analyzer) : Completion :=
  ⟨p.task, p.snapshot.document, p.snapshot.version, p.snapshot.mode,
    analyzer.run p.snapshot.request⟩

end Pass

/-- The thread of a pass. -/
inductive Thread where
  /-- The analyzer is at work, and the thread holds the permit. -/
  | analyzing (pass : Pass)
  /-- The permit is given back, and the completion is not sent yet. -/
  | sending (completion : Completion)
deriving Repr

/-- The place for passes, with its threads and what they have sent. -/
structure Dispatcher where
  permits : Nat := 1
  active : Option Ticket := none
  queue : List Queued := []
  nextTask : Nat := 0
  threads : List Thread := []
  mailbox : List Completion := []
deriving Repr

namespace Dispatcher

open SingleFlight (Reply)

/-- How many numbers there are for passes. They are used over again after that many. -/
def taskNumbers : Nat := 2 ^ 64

/-- A pass is on record. -/
def isBusy (d : Dispatcher) : Bool := d.active.isSome

/-- The document, version and mode of the pass on record. -/
def inFlight? (d : Dispatcher) : Option (DocumentId × Nat × Mode) :=
  d.active.map fun t => (t.document, t.version, t.mode)

/-- The queue is kept as that of `SingleFlight`. -/
def line (d : Dispatcher) : SingleFlight := { queue := d.queue }

def enqueue (d : Dispatcher) (id : DocumentId) (mode : Mode) : Dispatcher :=
  { d with queue := (d.line.enqueue id mode).queue }

/-- Starts a pass on the snapshot if none is on record and the permit is there, and queues
the document otherwise. -/
def request (d : Dispatcher) (s : Snapshot) : RequestOutcome × Dispatcher :=
  if d.active.isSome then (.queued, d.enqueue s.document s.mode)
  else if d.permits = 0 then (.queued, d.enqueue s.document s.mode)
  else
    let pass : Pass := ⟨d.nextTask, s⟩
    (.started d.nextTask,
      { d with
        permits := d.permits - 1
        active := some pass.ticket
        queue := (d.line.dropCovered s.document s.mode).queue
        nextTask := (d.nextTask + 1) % taskNumbers
        threads := d.threads ++ [.analyzing pass] })

/-- The analyzer of a thread comes to its end, and the thread gives the permit back. -/
def release (d : Dispatcher) (i : Nat) (analyzer : Analyzer) : Dispatcher :=
  match d.threads[i]? with
  | some (.analyzing pass) =>
    { d with
      permits := d.permits + 1
      threads := d.threads.set i (.sending (pass.conclude analyzer)) }
  | _ => d

/-- A thread sends its completion, and is done. -/
def send (d : Dispatcher) (i : Nat) : Dispatcher :=
  match d.threads[i]? with
  | some (.sending c) => { d with threads := d.threads.eraseIdx i, mailbox := d.mailbox ++ [c] }
  | _ => d

/-- Reads completions one after another. One of the pass on record is handed out and clears
the record; any other is dropped. -/
def read (active : Option Ticket) : List Completion → List Completion × Option Ticket
  | [] => ([], active)
  | c :: rest =>
    if active.any (·.task = c.task) then
      let (done, active) := read none rest
      (c :: done, active)
    else read active rest

/-- Reads the mailbox. -/
def collect (d : Dispatcher) : List Completion × Dispatcher :=
  let (done, active) := read d.active d.mailbox
  (done, { d with active, mailbox := [] })

/-- Takes the next document off the queue if no pass is on record. -/
def dequeue (d : Dispatcher) : Option Queued × Dispatcher :=
  if d.isBusy then (none, d)
  else
    match d.queue with
    | [] => (none, d)
    | q :: rest => (some q, { d with queue := rest })

/-- Takes a document off the queue. -/
def forget (d : Dispatcher) (id : DocumentId) : Dispatcher :=
  { d with queue := (d.line.forget id).queue }

/-- A step of one of the threads. -/
inductive Step where
  | request (snapshot : Snapshot)
  /-- The analyzer of the thread ends, like this one. -/
  | release (thread : Nat) (analyzer : Analyzer)
  | send (thread : Nat)
  | collect
  | dequeue
  | forget (document : DocumentId)

/-- Carries out a step. -/
def perform (d : Dispatcher) : Step → Option Reply × Dispatcher
  | .request s => let (outcome, d) := d.request s; (some (.requested outcome), d)
  | .release i analyzer => (none, d.release i analyzer)
  | .send i => (none, d.send i)
  | .collect => let (done, d) := d.collect; (some (.collected done), d)
  | .dequeue => let (next, d) := d.dequeue; (some (.dequeued next), d)
  | .forget id => (none, d.forget id)

/-- The place after some steps. -/
def run (d : Dispatcher) (steps : List Step) : Dispatcher :=
  steps.foldl (fun d step => (d.perform step).2) d

@[simp] theorem run_nil (d : Dispatcher) : d.run [] = d := rfl

@[simp] theorem run_cons (d : Dispatcher) (step : Step) (rest : List Step) :
    d.run (step :: rest) = (d.perform step).2.run rest := rfl

@[simp] theorem run_concat (d : Dispatcher) (steps : List Step) (step : Step) :
    d.run (steps ++ [step]) = ((d.run steps).perform step).2 := by simp [run]

theorem run_append (d : Dispatcher) (steps more : List Step) :
    d.run (steps ++ more) = (d.run steps).run more := by simp [run]

/-- What single steps put out, put together over some steps. -/
def gather {α : Type} (out : Dispatcher → Step → List α) (d : Dispatcher) : List Step → List α
  | [] => []
  | step :: rest => out d step ++ gather out (d.perform step).2 rest

theorem gather_append {α : Type} (out : Dispatcher → Step → List α) (d : Dispatcher)
    (steps more : List Step) :
    d.gather out (steps ++ more) = d.gather out steps ++ (d.run steps).gather out more := by
  induction steps generalizing d with
  | nil => rfl
  | cons step rest ih => simp [gather, ih]

theorem gather_concat {α : Type} (out : Dispatcher → Step → List α) (d : Dispatcher)
    (steps : List Step) (step : Step) :
    d.gather out (steps ++ [step]) = d.gather out steps ++ out (d.run steps) step := by
  simp [gather_append, gather]

/-- The replies to the steps. -/
def replies (d : Dispatcher) (steps : List Step) : List Reply :=
  d.gather (fun d step => (d.perform step).1.toList) steps

theorem replies_append (d : Dispatcher) (steps more : List Step) :
    d.replies (steps ++ more) = d.replies steps ++ (d.run steps).replies more :=
  gather_append _ d steps more

theorem replies_concat (d : Dispatcher) (steps : List Step) (step : Step) :
    d.replies (steps ++ [step]) = d.replies steps ++ ((d.run steps).perform step).1.toList :=
  gather_concat _ d steps step

/-- The pass that a step starts. -/
def starts (d : Dispatcher) : Step → List Pass
  | .request s =>
    match d.request s with
    | (.started task, _) => [⟨task, s⟩]
    | (.queued, _) => []
  | _ => []

/-- The analyzer that a step brings to an end. -/
def ends (d : Dispatcher) : Step → List Analyzer
  | .release i analyzer =>
    match d.threads[i]? with
    | some (.analyzing _) => [analyzer]
    | _ => []
  | _ => []

/-- The completion that a step sends. -/
def sends (d : Dispatcher) : Step → List Completion
  | .send i =>
    match d.threads[i]? with
    | some (.sending c) => [c]
    | _ => []
  | _ => []

/-- The completions that a step hands out. -/
def handsOut (d : Dispatcher) : Step → List Completion
  | .collect => d.collect.1
  | _ => []

end Dispatcher

end ScriptDesk
