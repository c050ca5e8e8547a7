import ScriptDesk.Analysis.Status
import ScriptDesk.Pass.SingleFlight

/-!
# ScriptDesk.Document.Tracking

What is kept about the analysis of one document, and how a completed pass is
put on record.

The content of a document has a version that grows with every edit and with
every change between full and minimal analysis. Completions are put on record in
the order of their stamps (version first, then mode), never backwards. A minimal
pass of a document with full analysis on is provisional: it refreshes the names
and leaves the rest, the status and the need for an analysis as they are. A
failed pass never goes further than this module: it is put on record as a failed
analysis.
-/

namespace ScriptDesk

/-- Version and mode of an analysis. -/
structure Stamp where
  version : Nat
  mode : Mode
deriving DecidableEq, Repr, Inhabited

/-- An analysis is older than another if its version is, or if the versions agree
and only the other one is full. -/
def Stamp.isOlder (a b : Stamp) : Bool :=
  a.version < b.version || (a.version == b.version && !a.mode.covers b.mode)

/-- What is kept about the analysis of a document. -/
structure Tracking where
  version : Nat := 0
  /-- The content changed since the last analysis that settles it. -/
  needsAnalysis : Bool := true
  /-- The version that a pass is running on. -/
  inFlight : Option Nat := none
  /-- Full analysis is on. -/
  enabled : Bool
  /-- The document has a file. -/
  hasFile : Bool
  /-- The analysis on record. -/
  analysis : Option Analysis := none
  /-- The stamp of the analysis on record. -/
  applied : Option Stamp := none
  /-- The analysis was put on record while the document was not shown. -/
  viewsStale : Bool := false
  status : Status := .idle
deriving DecidableEq, Repr, Inhabited

/-- What became of a completion. -/
inductive Settlement where
  /-- It is on record. `notify` tells whether the views have to be refreshed now,
  `provisional` whether only the names were taken over. -/
  | applied (notify provisional : Bool)
  /-- It is older than what is on record. -/
  | stale
  /-- The document is closed. -/
  | closed
  /-- The document never had that version. -/
  | unrecognized
deriving DecidableEq, Repr, Inhabited

namespace Tracking

/-- The mode of a pass on the document as it is. -/
def mode (t : Tracking) : Mode := if t.enabled then .full else .minimal

/-- The content changed. -/
def noteEdit (t : Tracking) : Tracking :=
  { t with version := t.version + 1, needsAnalysis := true, status := .updatePending }

/-- The content has to be analyzed anew. -/
def invalidate (t : Tracking) : Tracking := { t with needsAnalysis := true }

/-- Turns full analysis on or off. A change is a new version, so that no analysis
in the old mode can come after one in the new mode. -/
def setEnabled (t : Tracking) (enabled : Bool) : Tracking :=
  if t.enabled = enabled then t
  else { t with enabled, version := t.version + 1, needsAnalysis := true }

/-- A pass on the current version was started. -/
def noteStart (t : Tracking) (mode : Mode) : Tracking :=
  { t with
    inFlight := some t.version
    status := if mode = .full && t.enabled then .working else t.status }

/-- The pass settles the document: it is full, or full analysis is off. -/
def isSettledBy (t : Tracking) (mode : Mode) : Bool := mode = .full || !t.enabled

/-- The analysis that goes on record for an outcome. -/
def analysisOf (t : Tracking) (mode : Mode) (outcome : Outcome) : Analysis :=
  let found := match outcome with
    | .ok analysis => analysis
    | .error failure => .afterFailure t.analysis failure
  match t.analysis with
  | some base => if t.isSettledBy mode then found else base.withNamesOf found
  | none => found

/-- The pass on that version, if there is one, has ended. -/
def noteEnd (t : Tracking) (version : Nat) : Tracking :=
  if t.inFlight = some version then { t with inFlight := none } else t

/-- Puts an outcome on record. -/
def apply (t : Tracking) (stamp : Stamp) (outcome : Outcome) (shown : Bool) : Tracking :=
  let analysis := t.analysisOf stamp.mode outcome
  let settled := t.isSettledBy stamp.mode
  { t with
    status := if settled then .ofAnalysis analysis t.enabled t.hasFile else t.status
    needsAnalysis := if settled && stamp.version == t.version then false else t.needsAnalysis
    analysis := some analysis
    applied := some stamp
    viewsStale := !shown }

/-- The completion is older than what is on record. -/
def isStale (t : Tracking) (stamp : Stamp) : Bool := t.applied.any (stamp.isOlder ·)

/-- Takes in a completion of a pass on the document. -/
def settle (t : Tracking) (done : Completion) (shown : Bool) : Settlement × Tracking :=
  if t.version < done.version then (.unrecognized, t)
  else
    let stamp : Stamp := ⟨done.version, done.mode⟩
    let ended := t.noteEnd done.version
    if ended.isStale stamp then (.stale, ended)
    else
      (.applied shown (!ended.isSettledBy done.mode), ended.apply stamp done.outcome shown)

/-- Takes in a completion of a pass on a document that may be closed by now. -/
def settleIfOpen (t : Option Tracking) (done : Completion) (shown : Bool) :
    Settlement × Option Tracking :=
  match t with
  | some t => ((t.settle done shown).1, some (t.settle done shown).2)
  | none => (.closed, none)

end Tracking

end ScriptDesk
