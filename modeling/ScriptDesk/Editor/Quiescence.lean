import ScriptDesk.Editor.Command

/-!
# ScriptDesk.Editor.Quiescence

Letting the editor come to rest: every pass ends before the next tick, and every
tick comes when something is due. Each tick then takes work away (`workLeft`), so
the editor is idle after finitely many of them.
-/

namespace ScriptDesk.Editor

/-- The number of armed deadlines. -/
def armedDeadlines (e : Editor) : Nat :=
  e.debouncer.armed.foldr (fun (_, d) n => d.count + n) 0

/-- What is still to be done: queued requests and armed deadlines count twice,
since each may become a running pass, which counts once. -/
def workLeft (e : Editor) : Nat :=
  2 * (e.flight.queue.length + e.armedDeadlines) + e.flight.isBusy.toNat

/-- The instant of the next tick: when something is due, but not in the past. -/
def nextTick (e : Editor) (now : Time) : Time := max now (e.nextWakeup?.getD now)

/-- Lets the running pass end and moves on to the instant at which something is
due. -/
def advance (e : Editor) (analyzer : Analyzer) (now : Time) : Time × Editor :=
  let at_ := e.nextTick now
  (at_, ((e.finishPass analyzer).2.tick at_).2)

/-- Advances at most `fuel` times, until the editor is idle. -/
def restWithin (analyzer : Analyzer) : (fuel : Nat) → Time → Editor → Editor
  | 0, _, e => e
  | fuel + 1, now, e =>
    if e.isIdle then e
    else restWithin analyzer fuel (e.advance analyzer now).1 (e.advance analyzer now).2

/-- Advances until the editor is idle. -/
def rest (e : Editor) (analyzer : Analyzer) (now : Time) : Editor :=
  restWithin analyzer e.workLeft now e

end ScriptDesk.Editor
