import ScriptDesk.Pass.SingleFlight

/-!
# ScriptDesk.Pass.Call

What the place for passes can be asked to do, and runs of such calls. The end of the
running pass comes from outside, so it is a call too.
-/

namespace ScriptDesk.SingleFlight

/-- A call to the place for passes. -/
inductive Call where
  | request (snapshot : Snapshot)
  /-- The running pass ends, with what this analyzer makes of it. -/
  | finish (analyzer : Analyzer)
  | collect
  | dequeue
  | forget (document : DocumentId)

/-- What a call answers. -/
inductive Reply where
  | requested (outcome : RequestOutcome)
  | collected (done : List Completion)
  | dequeued (next : Option Queued)

/-- Carries out a call. -/
def perform (f : SingleFlight) : Call → Option Reply × SingleFlight
  | .request s => let (outcome, f) := f.request s; (some (.requested outcome), f)
  | .finish analyzer => (none, (f.finish analyzer).2)
  | .collect => let (done, f) := f.collect; (some (.collected done.toList), f)
  | .dequeue => let (next, f) := f.dequeue; (some (.dequeued next), f)
  | .forget id => (none, f.forget id)

/-- The place for passes after some calls. -/
def run (f : SingleFlight) (calls : List Call) : SingleFlight :=
  calls.foldl (fun f c => (f.perform c).2) f

/-- What some calls answer, one after another. -/
def replies (f : SingleFlight) : List Call → List Reply
  | [] => []
  | c :: rest => (f.perform c).1.toList ++ (f.perform c).2.replies rest

@[simp] theorem run_nil (f : SingleFlight) : f.run [] = f := rfl

@[simp] theorem run_cons (f : SingleFlight) (c : Call) (rest : List Call) :
    f.run (c :: rest) = (f.perform c).2.run rest := rfl

@[simp] theorem run_concat (f : SingleFlight) (calls : List Call) (c : Call) :
    f.run (calls ++ [c]) = ((f.run calls).perform c).2 := by simp [run]

theorem run_append (f : SingleFlight) (calls more : List Call) :
    f.run (calls ++ more) = (f.run calls).run more := by simp [run]

theorem replies_append (f : SingleFlight) (calls more : List Call) :
    f.replies (calls ++ more) = f.replies calls ++ (f.run calls).replies more := by
  induction calls generalizing f with
  | nil => rfl
  | cons c rest ih => simp [replies, ih]

end ScriptDesk.SingleFlight
