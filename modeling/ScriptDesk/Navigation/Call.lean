import ScriptDesk.Navigation.History

/-!
# ScriptDesk.Navigation.Call

What the history of a document can be asked to do, and runs of such calls.
-/

namespace ScriptDesk

/-- The move left a checkpoint behind, a new one or in place of the current one. -/
def MoveOutcome.isRecorded : MoveOutcome → Bool
  | .checkpoint _ | .coalesced | .overridden => true
  | .skipped | .disabled => false

namespace History

/-- A call to a history. -/
inductive Call where
  | record (position : Position)
  | mark (nextMove : NextMove)
  | setRecording (on : Bool)
  | back
  | forward
  | clear
deriving DecidableEq, Repr

/-- What a call answers. -/
inductive Reply where
  | moved (outcome : MoveOutcome)
  /-- Where the caret has to go, if anywhere. -/
  | jump (target : Option Position)
deriving DecidableEq, Repr

/-- Carries out a call. -/
def perform (h : History) : Call → Option Reply × History
  | .record position => let (outcome, h) := h.record position; (some (.moved outcome), h)
  | .mark nextMove => (none, h.mark nextMove)
  | .setRecording on => (none, h.setRecording on)
  | .back => let (target, h) := h.back; (some (.jump target), h)
  | .forward => let (target, h) := h.forward; (some (.jump target), h)
  | .clear => (none, h.clear)

/-- The history after some calls. -/
def run (h : History) (calls : List Call) : History := calls.foldl (fun h c => (h.perform c).2) h

/-- What some calls answer, one after another. -/
def replies (h : History) : List Call → List Reply
  | [] => []
  | c :: rest => (h.perform c).1.toList ++ (h.perform c).2.replies rest

@[simp] theorem run_nil (h : History) : h.run [] = h := rfl

@[simp] theorem run_cons (h : History) (c : Call) (rest : List Call) :
    h.run (c :: rest) = (h.perform c).2.run rest := rfl

@[simp] theorem run_concat (h : History) (calls : List Call) (c : Call) :
    h.run (calls ++ [c]) = ((h.run calls).perform c).2 := by simp [run]

theorem run_append (h : History) (calls more : List Call) :
    h.run (calls ++ more) = (h.run calls).run more := by simp [run]

theorem replies_append (h : History) (calls more : List Call) :
    h.replies (calls ++ more) = h.replies calls ++ (h.run calls).replies more := by
  induction calls generalizing h with
  | nil => rfl
  | cons c rest ih => simp [replies, ih]

/-! ## A check of the pointers

The calls above trust that the pointers stand on slots. Here the same calls look first,
and put pointers that drifted back on slots.
-/

/-- How the pointers miss the slots. -/
structure BoundsViolation where
  pointers : Pointers
  slots : Nat
deriving DecidableEq, Repr

/-- What is wrong with the pointers, if anything. -/
def violation? (h : History) : Option BoundsViolation :=
  h.pointers.bind fun p =>
    if p.current ≤ p.last ∧ p.last < h.slots.length then none else some ⟨p, h.slots.length⟩

/-- Puts the pointers on slots, if there are any. -/
def clamp (h : History) : History :=
  { h with
    pointers := h.pointers.bind fun p =>
      if h.slots.isEmpty then none
      else
        let last := min p.last (h.slots.length - 1)
        some ⟨min p.current last, last⟩ }

/-- The history with pointers that can be relied on. -/
def checked (h : History) : History := if h.violation?.isSome then h.clamp else h

/-- The call looks at the pointers. A move that is left out does not. -/
def looksAtPointers (h : History) : Call → Bool
  | .record _ => h.nextMove = .record ∨ h.nextMove = .override
  | .back | .forward => true
  | .mark _ | .setRecording _ | .clear => false

/-- Carries out a call, with the check in front. -/
def performChecked (h : History) (c : Call) : Option Reply × History :=
  if h.looksAtPointers c then h.checked.perform c else h.perform c

/-- The history after some calls, each with the check in front. -/
def runChecked (h : History) (calls : List Call) : History :=
  calls.foldl (fun h c => (h.performChecked c).2) h

@[simp] theorem runChecked_nil (h : History) : h.runChecked [] = h := rfl

@[simp] theorem runChecked_cons (h : History) (c : Call) (rest : List Call) :
    h.runChecked (c :: rest) = (h.performChecked c).2.runChecked rest := rfl

theorem violation?_eq_none_iff {h : History} : h.violation? = none ↔ h.InBounds := by
  simp [violation?, InBounds]

theorem InBounds.checked {h : History} (hb : h.InBounds) : h.checked = h := by
  simp [History.checked, violation?_eq_none_iff.2 hb]

theorem InBounds.performChecked {h : History} (hb : h.InBounds) (c : Call) :
    h.performChecked c = h.perform c := by
  rw [History.performChecked, hb.checked, ite_self]

theorem InBounds.perform {h : History} (hb : h.InBounds) (c : Call) : (h.perform c).2.InBounds := by
  cases c with
  | record position => exact hb.record position
  | mark nextMove => exact hb.mark nextMove
  | setRecording on => exact hb.setRecording on
  | back => exact hb.back
  | forward => exact hb.forward
  | clear => exact InBounds.clear h

theorem InBounds.run {h : History} (hb : h.InBounds) (calls : List Call) :
    (h.run calls).InBounds := by
  induction calls generalizing h with
  | nil => exact hb
  | cons c rest ih => exact ih (hb.perform c)

/-- The check never finds anything as long as nothing else touches the pointers. -/
theorem InBounds.runChecked {h : History} (hb : h.InBounds) (calls : List Call) :
    h.runChecked calls = h.run calls := by
  induction calls generalizing h with
  | nil => rw [runChecked_nil, run_nil]
  | cons c rest ih =>
    rw [runChecked_cons, run_cons, hb.performChecked c]
    exact ih (hb.perform c)

end History

end ScriptDesk
