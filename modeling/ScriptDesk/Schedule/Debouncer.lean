import ScriptDesk.Document.Id
import ScriptDesk.Schedule.Deadlines

/-!
# ScriptDesk.Schedule.Debouncer

When documents are analyzed. Every trigger arms the deadlines of its document
anew, so nothing is due during a burst of edits. Asked at an instant, the
debouncer lets at most one document through: the one whose passed deadline is
the earliest, and among equals the one opened first. While a pass is running it
lets none through and all deadlines stay armed.
-/

namespace ScriptDesk

/-- A document whose deadline has passed. -/
structure Due where
  deadline : Time
  document : DocumentId
  mode : Mode
deriving DecidableEq, Repr

namespace Due

/-- The order in which due documents are let through. -/
def before (a b : Due) : Bool :=
  a.deadline < b.deadline || (a.deadline == b.deadline && a.document.number < b.document.number)

/-- The one to let through. -/
def first? : List Due → Option Due
  | [] => none
  | d :: rest =>
    match first? rest with
    | some e => if e.before d then some e else some d
    | none => some d

theorem first?_eq_none_iff {ds : List Due} : first? ds = none ↔ ds = [] := by
  cases ds with
  | nil => simp [first?]
  | cons d rest => simp only [first?]; split <;> (try split) <;> simp

/-- The one let through is one of them. -/
theorem mem_of_first?_eq_some {ds : List Due} {d : Due} (h : first? ds = some d) : d ∈ ds := by
  induction ds with
  | nil => simp [first?] at h
  | cons e rest ih =>
    simp only [first?] at h
    split at h
    · next f hf =>
      split at h
      · cases h; exact List.mem_cons_of_mem _ (ih hf)
      · cases h; exact List.mem_cons_self
    · cases h; exact List.mem_cons_self

/-- Of two due documents that are not in order the second is let through no later. -/
theorem before_eq_false_iff {a b : Due} :
    a.before b = false ↔
      b.deadline < a.deadline ∨
        b.deadline = a.deadline ∧ b.document.number ≤ a.document.number := by
  grind [before]

theorem not_before_self (d : Due) : d.before d = false := by simp [before]

/-- None of them is before the one let through. -/
theorem before_eq_false_of_first? {ds : List Due} {d : Due} (h : first? ds = some d) :
    ∀ e ∈ ds, e.before d = false := by
  induction ds generalizing d with
  | nil => nofun
  | cons e rest ih =>
    simp only [first?] at h
    rw [List.forall_mem_cons]
    split at h
    · next f hf =>
      split at h
      · cases h
        exact ⟨by grind [before], ih hf⟩
      · cases h
        refine ⟨e.not_before_self, fun g hg => ?_⟩
        have hgf := ih hf g hg
        grind [before]
    · next hnone =>
      cases h
      rw [first?_eq_none_iff] at hnone
      subst hnone
      exact ⟨e.not_before_self, nofun⟩

end Due

/-- What the debouncer answers at an instant. -/
structure Poll where
  /-- The document to analyze, and how deep. -/
  fired : Option (DocumentId × Mode)
  /-- The due documents that have to wait. -/
  deferred : Nat
deriving DecidableEq, Repr, Inhabited

/-- The armed deadlines of all documents. -/
structure Debouncer where
  policy : Policy := {}
  armed : List (DocumentId × Deadlines) := []
deriving Repr, Inhabited

namespace Debouncer

/-- The deadlines of a document. -/
def deadlines (s : Debouncer) (id : DocumentId) : Deadlines := (s.armed.lookup id).getD {}

/-- Disarms a document. -/
def cancel (s : Debouncer) (id : DocumentId) : Debouncer :=
  { s with armed := s.armed.filter (·.1 ≠ id) }

/-- Gives a document these deadlines; idle ones take no place. -/
def set (s : Debouncer) (id : DocumentId) (d : Deadlines) : Debouncer :=
  if d.isIdle then s.cancel id else { s with armed := (s.cancel id).armed ++ [(id, d)] }

/-- Arms the deadlines of a document for what happened to it now. -/
def trigger (s : Debouncer) (id : DocumentId) (now : Time) (trigger : Trigger) (enabled : Bool) :
    Debouncer :=
  s.set id (.after now (s.policy.arm trigger enabled))

/-- A deadline is armed for the document. -/
def isArmed (s : Debouncer) (id : DocumentId) : Bool := !(s.deadlines id).isIdle

/-- The earliest of all deadlines. -/
def next? (s : Debouncer) : Option Time := (s.armed.filterMap (·.2.earliest?)).min?

/-- Disarms the documents that are closed. -/
def dropClosed (s : Debouncer) (enabled? : DocumentId → Option Bool) : Debouncer :=
  { s with armed := s.armed.filter fun (id, d) => (enabled? id).isSome && !d.isIdle }

/-- The open documents whose deadline has passed. -/
def due (s : Debouncer) (now : Time) (enabled? : DocumentId → Option Bool) : List Due :=
  s.armed.filterMap fun (id, d) =>
    (enabled? id).bind fun enabled =>
      (d.due? now enabled).map fun (deadline, mode) => ⟨deadline, id, mode⟩

/-- Takes the deadlines that a started pass answers off a document. -/
def fire (s : Debouncer) (d : Due) (enabled : Bool) : Debouncer :=
  s.set d.document ((s.deadlines d.document).afterFiring d.mode enabled)

/-- Asks what is due now. `enabled?` tells which documents are open and which of
them have full analysis on. -/
def poll (s : Debouncer) (now : Time) (busy : Bool) (enabled? : DocumentId → Option Bool) :
    Poll × Debouncer :=
  let waiting := s.due now enabled?
  let open_ := s.dropClosed enabled?
  match Due.first? waiting with
  | none => (⟨none, 0⟩, open_)
  | some first =>
    if busy then (⟨none, waiting.length⟩, open_)
    else
      (⟨some (first.document, first.mode), waiting.length - 1⟩,
        open_.fire first ((enabled? first.document).getD false))

@[simp] theorem policy_cancel (s : Debouncer) (id : DocumentId) :
    (s.cancel id).policy = s.policy := rfl

@[simp] theorem policy_set (s : Debouncer) (id : DocumentId) (d : Deadlines) :
    (s.set id d).policy = s.policy := by
  unfold set; split <;> rfl

end Debouncer

end ScriptDesk
