import ScriptDesk.Navigation.Call

/-!
# ScriptDesk.Navigation.Zipper

A history as a browser keeps it: a zipper of the positions behind the current one and
of those ahead. A visit leaves the current position behind and drops what is ahead, and
a step back or forward moves one position from one side to the other.

No slot and no pointer is left here, so there is nothing that could be out of bounds,
and a move that is to be recorded always is.
-/

namespace ScriptDesk

/-- A position with those behind it and those ahead, both first to last. -/
structure Zipper where
  past : List Position := []
  current : Position
  future : List Position := []
deriving DecidableEq, Repr, Inhabited

namespace Zipper

/-- All positions, first to last. -/
def toList (z : Zipper) : List Position := z.past ++ [z.current] ++ z.future

/-- How many positions there are. -/
def length (z : Zipper) : Nat := z.past.length + 1 + z.future.length

/-- Goes to a new position: the current one is behind it, and nothing is ahead. -/
def visit (z : Zipper) (position : Position) : Zipper :=
  { past := z.past ++ [z.current], current := position }

/-- Puts another position in place of the current one. -/
def replace (z : Zipper) (position : Position) : Zipper := { z with current := position }

/-- Goes to the position right behind, if there is one. -/
def back? (z : Zipper) : Option Zipper :=
  z.past.getLast?.map fun position => ⟨z.past.dropLast, position, z.current :: z.future⟩

/-- Goes to the position right ahead, if there is one. -/
def forward? (z : Zipper) : Option Zipper :=
  z.future.head?.map fun position => ⟨z.past ++ [z.current], position, z.future.tail⟩

/-- Which of back and forward can do something. -/
def affordances (z : Zipper) : Affordances := ⟨!z.past.isEmpty, !z.future.isEmpty⟩

/-- Where the current and the last position stand among all positions. -/
def pointers (z : Zipper) : Pointers := ⟨z.past.length, z.past.length + z.future.length⟩

end Zipper

/-- The history of one document, as a browser keeps it. -/
structure BrowserHistory where
  /-- Nothing was recorded as long as there is none. -/
  zipper : Option Zipper := none
  /-- The line of the position recorded or returned to last. -/
  lastLine : Option Nat := none
  nextMove : NextMove := .record
  /-- Moves of at most this many lines coalesce. -/
  radius : Nat := 1
deriving DecidableEq, Repr, Inhabited

namespace BrowserHistory

open History (Call Reply)

/-! ## Views -/

def checkpoints (b : BrowserHistory) : List Position := (b.zipper.map (·.toList)).getD []

def length (b : BrowserHistory) : Nat := (b.zipper.map (·.length)).getD 0

def current? (b : BrowserHistory) : Option Position := b.zipper.map (·.current)

def isEmpty (b : BrowserHistory) : Bool := b.zipper.isNone

def affordances (b : BrowserHistory) : Affordances :=
  (b.zipper.map (·.affordances)).getD ⟨false, false⟩

/-! ## Changes -/

/-- Offers a caret move to the history. -/
def record (b : BrowserHistory) (position : Position) : MoveOutcome × BrowserHistory :=
  match b.nextMove with
  | .ignore => (.disabled, b)
  | .skip => (.skipped, { b with nextMove := .record })
  | .override =>
    match b.zipper with
    | some z => (.overridden, { b with zipper := some (z.replace position), nextMove := .record })
    | none => (.skipped, { b with nextMove := .record })
  | .record =>
    let moved := { b with lastLine := some position.line }
    match b.zipper with
    | some z =>
      if startsCheckpoint b.lastLine position.line b.radius then
        (.checkpoint (z.past.length + 1), { moved with zipper := some (z.visit position) })
      else (.coalesced, { moved with zipper := some (z.replace position) })
    | none => (.checkpoint 0, { moved with zipper := some { current := position } })

def mark (b : BrowserHistory) (nextMove : NextMove) : BrowserHistory := { b with nextMove }

def setRecording (b : BrowserHistory) (on : Bool) : BrowserHistory :=
  b.mark (if on then .record else .ignore)

/-- Goes where a step leads, if it leads anywhere. The move that echoes the jump is
left out. -/
def go (b : BrowserHistory) : (target : Option Zipper) → Option Position × BrowserHistory
  | some z =>
    (some z.current,
      { b with
        zipper := some z
        lastLine := some z.current.line
        nextMove := if b.nextMove = .ignore then .ignore else .skip })
  | none => (none, b)

def back (b : BrowserHistory) : Option Position × BrowserHistory := b.go (b.zipper.bind (·.back?))

def forward (b : BrowserHistory) : Option Position × BrowserHistory :=
  b.go (b.zipper.bind (·.forward?))

/-- Forgets everything but the radius. -/
def clear (b : BrowserHistory) : BrowserHistory := { radius := b.radius }

/-! ## Runs -/

/-- Carries out a call. -/
def perform (b : BrowserHistory) : Call → Option Reply × BrowserHistory
  | .record position => let (outcome, b) := b.record position; (some (.moved outcome), b)
  | .mark nextMove => (none, b.mark nextMove)
  | .setRecording on => (none, b.setRecording on)
  | .back => let (target, b) := b.back; (some (.jump target), b)
  | .forward => let (target, b) := b.forward; (some (.jump target), b)
  | .clear => (none, b.clear)

/-- The history after some calls. -/
def run (b : BrowserHistory) (calls : List Call) : BrowserHistory :=
  calls.foldl (fun b c => (b.perform c).2) b

/-- What some calls answer, one after another. -/
def replies (b : BrowserHistory) : List Call → List Reply
  | [] => []
  | c :: rest => (b.perform c).1.toList ++ (b.perform c).2.replies rest

end BrowserHistory

end ScriptDesk
