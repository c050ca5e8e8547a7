/-!
# ScriptDesk.Schedule.Policy

How long to wait after an edit before a document is analyzed. Times are counted
in microseconds, so that half of a delay given in milliseconds is exact.
-/

namespace ScriptDesk

/-- Microseconds, either a span or an instant counted from the start. -/
abbrev Time := Nat

/-- The span of that many milliseconds. -/
def milliseconds (n : Nat) : Time := 1000 * n

/-- What happened to the document. -/
inductive Trigger where
  /-- Its text was edited. -/
  | typing
  /-- It was saved. -/
  | save
  /-- A command changed its structure. -/
  | structural
deriving DecidableEq, Repr, Inhabited

/-- The delay for each trigger, and the delay for the names alone. -/
structure Policy where
  typing : Time := milliseconds 4000
  save : Time := milliseconds 1000
  structural : Time := milliseconds 1000
  names : Time := milliseconds 500
deriving DecidableEq, Repr, Inhabited

/-- The delays that a trigger arms: after `names` the names are due, after `full`
everything is, unless full analysis is off. -/
structure Delays where
  names : Time
  full : Option Time
deriving DecidableEq, Repr

namespace Policy

/-- The same delay for everything. -/
def uniform (delay : Time) : Policy := ⟨delay, delay, delay, delay⟩

/-- The delay for a trigger. -/
def delay (p : Policy) : Trigger → Time
  | .typing => p.typing
  | .save => p.save
  | .structural => p.structural

/-- What a trigger arms. The names are never due after the full analysis; with
full analysis off they are due after half the delay. -/
def arm (p : Policy) (trigger : Trigger) (enabled : Bool) : Delays :=
  if enabled then ⟨min p.names (p.delay trigger), some (p.delay trigger)⟩
  else ⟨p.delay trigger / 2, none⟩

/-- The names are due no later than the full analysis. -/
theorem names_le_full {p : Policy} {trigger : Trigger} {enabled : Bool} {full : Time}
    (h : (p.arm trigger enabled).full = some full) : (p.arm trigger enabled).names ≤ full := by
  unfold arm at *
  split at h
  · simp only [Option.some.injEq] at h
    rw [if_pos ‹_›, ← h]
    exact Nat.min_le_right _ _
  · simp at h

end Policy

end ScriptDesk
