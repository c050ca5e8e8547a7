import ScriptDesk.Analysis.Analyzer
import ScriptDesk.Schedule.Policy

/-!
# ScriptDesk.Schedule.Deadlines

The deadlines of one document: one for its names, one for everything.
-/

namespace ScriptDesk

/-- The instants from which on a minimal and a full pass are due. -/
structure Deadlines where
  names : Option Time := none
  full : Option Time := none
deriving DecidableEq, Repr, Inhabited

namespace Deadlines

/-- The deadlines that some delays arm. -/
def after (now : Time) (delays : Delays) : Deadlines :=
  { names := some (now + delays.names), full := delays.full.map (now + ·) }

/-- No deadline is armed. -/
def isIdle (d : Deadlines) : Bool := d.names.isNone && d.full.isNone

/-- The number of armed deadlines. -/
def count (d : Deadlines) : Nat := d.names.toList.length + d.full.toList.length

/-- The earlier deadline. -/
def earliest? (d : Deadlines) : Option Time :=
  match d.names, d.full with
  | some a, some b => some (min a b)
  | some a, none => some a
  | none, b => b

/-- The deadline that has passed, with the pass that is due. With full analysis
on, a full deadline that has passed counts before one for the names; with it
off, whichever deadline comes first asks for the names. -/
def due? (d : Deadlines) (now : Time) (enabled : Bool) : Option (Time × Mode) :=
  if enabled then
    (d.full.filter (· ≤ now)).map (·, Mode.full) <|>
      (d.names.filter (· ≤ now)).map (·, Mode.minimal)
  else (d.earliest?.filter (· ≤ now)).map (·, Mode.minimal)

/-- What stays armed when a pass was started: the full deadline, and only after a
minimal pass of a document with full analysis on. -/
def afterFiring (d : Deadlines) (mode : Mode) (enabled : Bool) : Deadlines :=
  match mode, enabled with
  | .minimal, true => { d with names := none }
  | _, _ => {}

/-- Nothing is due before the earliest deadline. -/
theorem earliest?_le_of_due? {d : Deadlines} {now : Time} {enabled : Bool} {due : Time × Mode}
    (h : d.due? now enabled = some due) : ∃ e, d.earliest? = some e ∧ e ≤ now := by
  rcases d with ⟨_ | names, _ | full⟩ <;> cases enabled <;>
    simp [due?, earliest?, Option.filter] at h ⊢ <;> grind

/-- From the earliest deadline on something is due. -/
theorem due?_isSome_of_earliest? {d : Deadlines} {now e : Time} (enabled : Bool)
    (h : d.earliest? = some e) (hle : e ≤ now) : (d.due? now enabled).isSome = true := by
  rcases d with ⟨_ | names, _ | full⟩ <;> cases enabled <;>
    simp [due?, earliest?, Option.filter] at h ⊢ <;> grind

end Deadlines

end ScriptDesk
