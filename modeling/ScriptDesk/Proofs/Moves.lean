import ScriptDesk.Navigation.Journey
import ScriptDesk.Proofs.Zipper

/-!
# ScriptDesk.Proofs.Moves

What becomes of a caret move that is offered to a history, told from the calls before it.

A move that is to be recorded is measured from the position placed last, be it by an
earlier move or by a jump (`History.measured_run`). Moves that override the current
checkpoint do not count here: they change the checkpoint and leave the last line as it was,
so after one the next move is not measured from the current checkpoint.

Recording is on or off as the last call says that switches it (`History.switched_run`). Every
mark switches it, also one for a single move: only a mark to ignore moves turns it off, and
any other turns it on again.
-/

namespace ScriptDesk

namespace History

/-! ## Placed positions -/

/-- A position that a call made current. -/
structure Placement where
  position : Position
  /-- It came in place of the current checkpoint on request, however far away. -/
  overrides : Bool
deriving DecidableEq, Repr

/-- The position that a call makes current, as its answer tells. -/
def placement? : Call → Option Reply → Option Placement
  | .record position, some (.moved (.checkpoint _)) => some ⟨position, false⟩
  | .record position, some (.moved .coalesced) => some ⟨position, false⟩
  | .record position, some (.moved .overridden) => some ⟨position, true⟩
  | _, some (.jump target) => target.map (⟨·, false⟩)
  | _, _ => none

/-- The positions that some calls make current, one after another. -/
def placements (h : History) : List Call → List Placement
  | [] => []
  | c :: rest => (placement? c (h.perform c).1).toList ++ (h.perform c).2.placements rest

/-- The positions among those that did not override. -/
def visits (h : History) (calls : List Call) : List Placement :=
  (h.placements calls).filter (!·.overrides)

theorem placements_concat (h : History) (calls : List Call) (c : Call) :
    h.placements (calls ++ [c]) =
      h.placements calls ++ (placement? c ((h.run calls).perform c).1).toList := by
  induction calls generalizing h with
  | nil => simp [placements]
  | cons c' rest ih => simp [placements, ih]

end History

/-! ## The position to measure from -/

namespace BrowserHistory

open History (Call Placement placement?)

/-- What was placed last is current, and the last line is that of what was placed last
without an override. -/
structure Anchored (b : BrowserHistory) (ps : List Placement) : Prop where
  current : ∀ z, b.zipper = some z → ps.getLast?.map (·.position) = some z.current
  lastLine : ∀ z, b.zipper = some z →
    b.lastLine = (ps.filter (!·.overrides)).getLast?.map (·.position.line)

theorem anchored_new (radius : Nat) : Anchored { radius } [] := ⟨nofun, nofun⟩

variable {b : BrowserHistory} {ps : List Placement}

/-- Nothing was placed, and the current position and the last line stayed. -/
theorem Anchored.of_eq {b' : BrowserHistory} (hb : b.Anchored ps) (hz : b'.zipper = b.zipper)
    (hl : b'.lastLine = b.lastLine) : b'.Anchored (ps ++ (none : Option Placement).toList) := by
  rw [Option.toList_none, List.append_nil]
  exact ⟨fun z h => hb.current z (hz ▸ h), fun z h => hl ▸ hb.lastLine z (hz ▸ h)⟩

/-- A position was made current, and its line is the last one. -/
theorem anchored_visited (z : Zipper) (hz : b.zipper = some z)
    (hl : b.lastLine = some z.current.line) :
    b.Anchored (ps ++ (some (⟨z.current, false⟩ : Placement)).toList) := by
  constructor
  · intro z' hz'
    obtain rfl : z = z' := Option.some.inj (hz.symm.trans hz')
    simp
  · intro z' hz'
    simp [hl]

/-- A position came in place of the current one, and the last line stayed. -/
theorem Anchored.overridden {b' : BrowserHistory} {z : Zipper} (z' : Zipper) (hb : b.Anchored ps)
    (hz : b.zipper = some z) (hz' : b'.zipper = some z') (hl : b'.lastLine = b.lastLine) :
    b'.Anchored (ps ++ (some (⟨z'.current, true⟩ : Placement)).toList) := by
  constructor
  · intro w hw
    obtain rfl : z' = w := Option.some.inj (hz'.symm.trans hw)
    simp
  · intro w hw
    simpa [hl] using hb.lastLine z hz

theorem Anchored.record (hb : b.Anchored ps) (position : Position) :
    (b.record position).2.Anchored
      (ps ++ (placement? (.record position) (some (.moved (b.record position).1))).toList) := by
  obtain ⟨zipper, lastLine, nextMove, radius⟩ := b
  cases nextMove with
  | ignore => exact hb.of_eq rfl rfl
  | skip => exact hb.of_eq rfl rfl
  | override =>
    cases zipper with
    | none => exact hb.of_eq rfl rfl
    | some z => exact hb.overridden (z.replace position) rfl rfl rfl
  | record =>
    cases zipper with
    | none => exact anchored_visited { current := position } rfl rfl
    | some z =>
      unfold BrowserHistory.record
      dsimp only
      split
      · exact anchored_visited (z.visit position) rfl rfl
      · exact anchored_visited (z.replace position) rfl rfl

/-- A step leads to a position or nowhere. -/
theorem Anchored.go (hb : b.Anchored ps) (target : Option Zipper) :
    (b.go target).2.Anchored (ps ++ ((b.go target).1.map (⟨·, false⟩ : _ → Placement)).toList) := by
  cases target with
  | none => exact hb.of_eq rfl rfl
  | some z => exact anchored_visited z rfl rfl

theorem Anchored.perform (hb : b.Anchored ps) (c : Call) :
    (b.perform c).2.Anchored (ps ++ (placement? c (b.perform c).1).toList) := by
  cases c with
  | record position => exact hb.record position
  | mark nextMove => exact hb.of_eq rfl rfl
  | setRecording on => exact hb.of_eq rfl rfl
  | back => exact hb.go _
  | forward => exact hb.go _
  | clear => exact ⟨nofun, nofun⟩

end BrowserHistory

/-- The two lines are at most `radius` lines apart. -/
def IsNear (radius a b : Nat) : Prop := ((a : Int) - b).natAbs ≤ radius

theorem startsCheckpoint_iff {last line radius : Nat} :
    startsCheckpoint (some last) line radius = true ↔ ¬ IsNear radius last line := by
  simp only [startsCheckpoint, IsNear, decide_eq_true_eq]
  omega

namespace BrowserHistory

variable {b : BrowserHistory} {z : Zipper} {line : Nat} {position : Position}

theorem record_of_isNear (hn : b.nextMove = .record) (hz : b.zipper = some z)
    (hl : b.lastLine = some line) (hnear : IsNear b.radius line position.line) :
    b.record position =
      (.coalesced,
        { b with lastLine := some position.line, zipper := some (z.replace position) }) := by
  have hstays : ¬ startsCheckpoint (some line) position.line b.radius = true :=
    fun h => startsCheckpoint_iff.1 h hnear
  simp only [record, hn, hz, hl, if_neg hstays]

theorem record_of_not_isNear (hn : b.nextMove = .record) (hz : b.zipper = some z)
    (hl : b.lastLine = some line) (hfar : ¬ IsNear b.radius line position.line) :
    b.record position =
      (.checkpoint (z.past.length + 1),
        { b with lastLine := some position.line, zipper := some (z.visit position) }) := by
  simp only [record, hn, hz, hl, if_pos (startsCheckpoint_iff.2 hfar)]

end BrowserHistory

namespace Zipper

variable {z : Zipper} {position : Position}

theorem toList_replace :
    (z.replace position).toList = z.toList.set z.pointers.current position := by
  simp [toList, replace, pointers]

theorem toList_visit :
    (z.visit position).toList = z.toList.take (z.pointers.current + 1) ++ [position] := by
  have hfront : z.toList = (z.past ++ [z.current]) ++ z.future := rfl
  have hlength : (z.past ++ [z.current]).length = z.pointers.current + 1 := List.length_append
  rw [hfront, ← hlength, List.take_left]
  simp [toList, visit]

end Zipper

namespace History

theorem anchored_run (radius : Nat) (calls : List Call) :
    (BrowserHistory.run { radius } calls).Anchored (placements { radius } calls) := by
  induction calls using List.reverseRecOn with
  | nil => exact BrowserHistory.anchored_new radius
  | append_singleton calls c ih =>
    have hs := (shows_new radius).run calls
    rw [placements_concat, (hs.perform c).1, BrowserHistory.run, List.foldl_append]
    exact ih.perform c

theorem radius_record (h : History) (position : Position) :
    (h.record position).2.radius = h.radius := by
  unfold History.record
  split
  · rfl
  · rfl
  · split <;> rfl
  · dsimp only
    split
    · rfl
    · split <;> rfl

theorem radius_go (h : History) (d : Direction) : (h.go d).2.radius = h.radius := by
  obtain hgo | ⟨p, position, hgo⟩ := h.go_cases d <;> simp only [hgo, landed]

theorem radius_perform (h : History) (c : Call) : (h.perform c).2.radius = h.radius := by
  cases c with
  | record position => exact h.radius_record position
  | mark nextMove => rfl
  | setRecording on => rfl
  | back => exact h.radius_go .back
  | forward => exact h.radius_go .forward
  | clear => rfl

theorem radius_run (h : History) (calls : List Call) : (h.run calls).radius = h.radius := by
  induction calls generalizing h with
  | nil => rfl
  | cons c rest ih => rw [run_cons, ih, radius_perform]

/-- How a history treats a move that is to be recorded, when `latest` was placed last and
`base` was placed last without an override. -/
structure Measures (radius : Nat) (h : History) (latest base : Placement) : Prop where
  current? : h.current? = some latest.position
  /-- A move near the base takes the place of the current checkpoint. -/
  coalesces : ∀ position, IsNear radius base.position.line position.line →
    (h.record position).1 = .coalesced ∧
      ∃ p, h.pointers = some p ∧ (h.record position).2.pointers = some p ∧
        (h.record position).2.checkpoints = h.checkpoints.set p.current position
  /-- Any other makes a checkpoint behind it, and what was ahead is cut off. -/
  starts : ∀ position, ¬ IsNear radius base.position.line position.line →
    ∃ p, h.pointers = some p ∧ (h.record position).1 = .checkpoint (p.current + 1) ∧
      (h.record position).2.pointers = some ⟨p.current + 1, p.current + 1⟩ ∧
        (h.record position).2.checkpoints = h.checkpoints.take (p.current + 1) ++ [position]

variable {h : History} {b : BrowserHistory} {z : Zipper} {latest base : Placement}

theorem Shows.measures (hs : h.Shows b) (latest : Placement) (hn : h.nextMove = .record)
    (hz : b.zipper = some z) (hlatest : latest.position = z.current)
    (hbase : b.lastLine = some base.position.line) : h.Measures h.radius latest base := by
  rw [hs.nextMove] at hn
  have hpointers : h.pointers = some z.pointers := by rw [hs.lies.pointers_eq, hz, Option.map_some]
  have hcheckpoints : h.checkpoints = z.toList := by
    rw [hs.checkpoints, BrowserHistory.checkpoints, hz, Option.map_some, Option.getD_some]
  refine ⟨?_, fun position hnear => ?_, fun position hfar => ?_⟩
  · rw [hs.current?, BrowserHistory.current?, hz, hlatest, Option.map_some]
  · obtain ⟨hout, hs'⟩ := hs.record position
    rw [BrowserHistory.record_of_isNear hn hz hbase (hs.radius ▸ hnear)] at hout hs'
    refine ⟨hout, z.pointers, hpointers, hs'.lies.pointers_eq, ?_⟩
    rw [hs'.checkpoints, hcheckpoints]
    exact Zipper.toList_replace
  · obtain ⟨hout, hs'⟩ := hs.record position
    rw [BrowserHistory.record_of_not_isNear hn hz hbase (hs.radius ▸ hfar)] at hout hs'
    refine ⟨z.pointers, hpointers, hout, hs'.lies.pointers_eq.trans ?_, ?_⟩
    · simp [Zipper.pointers, Zipper.visit]
    · rw [hs'.checkpoints, hcheckpoints]
      exact Zipper.toList_visit

/-- The current checkpoint is what moves are measured from exactly if it stands on the line
of the base. -/
theorem Measures.coalesced_iff_near_current_iff {radius : Nat}
    (hm : h.Measures radius latest base) :
    (∀ position, (h.record position).1 = .coalesced ↔
        IsNear radius latest.position.line position.line) ↔
      latest.position.line = base.position.line := by
  have hbase : ∀ position, (h.record position).1 = .coalesced ↔
      IsNear radius base.position.line position.line := by
    intro position
    refine ⟨fun hout => ?_, fun hnear => (hm.coalesces position hnear).1⟩
    by_contra hfar
    obtain ⟨p, -, hout', -⟩ := hm.starts position hfar
    rw [hout'] at hout
    contradiction
  constructor
  · intro hcurrent
    -- The farthest line that is near to one of the two is too far from the other.
    have hlatest := (hbase ⟨latest.position.line + radius, 0⟩).symm.trans (hcurrent _)
    have hbase' := (hbase ⟨base.position.line + radius, 0⟩).symm.trans (hcurrent _)
    simp only [IsNear] at hlatest hbase'
    omega
  · intro hline position
    rw [hbase, hline]

/-- After any calls, a move that is to be recorded is measured from what was placed last
without an override. That is the current checkpoint as long as the last placement did not
override, and it makes no difference as long as both are on one line. -/
theorem measured_run (radius : Nat) (calls : List Call)
    (hrecorded : (run { radius } calls).isEmpty = false)
    (hnext : (run { radius } calls).nextMove = .record) :
    ∃ latest base, (placements { radius } calls).getLast? = some latest ∧
      (visits { radius } calls).getLast? = some base ∧
      (latest.overrides = false → base = latest) ∧
      (run { radius } calls).Measures radius latest base ∧
      ((∀ position, ((run { radius } calls).record position).1 = .coalesced ↔
          IsNear radius latest.position.line position.line) ↔
        latest.position.line = base.position.line) := by
  have hs := (shows_new radius).run calls
  have ha := anchored_run radius calls
  rw [hs.isEmpty] at hrecorded
  obtain ⟨z, hz⟩ : ∃ z, (BrowserHistory.run { radius } calls).zipper = some z :=
    Option.isSome_iff_exists.1 (by simpa [BrowserHistory.isEmpty] using hrecorded)
  obtain ⟨latest, hlatest, hcurrent⟩ := Option.map_eq_some_iff.1 (ha.current z hz)
  obtain ⟨line, hline⟩ : ∃ line, (BrowserHistory.run { radius } calls).lastLine = some line :=
    Option.isSome_iff_exists.1 (by rw [hs.recorded, hz, Option.isSome_some])
  have hlast := (ha.lastLine z hz).symm.trans hline
  obtain ⟨base, hbase, rfl⟩ := Option.map_eq_some_iff.1 hlast
  have hm := hs.measures latest hnext hz hcurrent hline
  rw [radius_run] at hm
  refine ⟨latest, base, hlatest, hbase, fun hvisit => ?_, hm, hm.coalesced_iff_near_current_iff⟩
  obtain ⟨earlier, hps⟩ := List.getLast?_eq_some_iff.1 hlatest
  rw [hps] at hbase
  simpa [hvisit, eq_comm] using hbase

/-- A jump back to line 5 is overridden by a move to line 300: what follows is measured from
line 5. -/
theorem measured_run_after_override :
    let calls : List Call :=
      [.record ⟨5, 0⟩, .record ⟨40, 0⟩, .back, .mark .override, .record ⟨300, 0⟩]
    ((run { radius := 1 } calls).isEmpty = false ∧ (run { radius := 1 } calls).nextMove = .record) ∧
      ∃ latest base, (placements { radius := 1 } calls).getLast? = some latest ∧
        (visits { radius := 1 } calls).getLast? = some base ∧
        (latest.overrides = false → base = latest) ∧
        (run { radius := 1 } calls).Measures 1 latest base ∧
        ((∀ position, ((run { radius := 1 } calls).record position).1 = .coalesced ↔
            IsNear 1 latest.position.line position.line) ↔
          latest.position.line = base.position.line) :=
  ⟨by decide, measured_run 1 _ (by decide) (by decide)⟩

/-- After a move that overrides, a move next to the current checkpoint leaves it behind, and
one far away takes its place. -/
theorem override_leaves_lastLine :
    let h := run { radius := 1 } [.record ⟨5, 0⟩, .mark .override, .record ⟨300, 0⟩]
    (h.isEmpty = false ∧ h.nextMove = .record ∧ h.current? = some ⟨300, 0⟩) ∧
      (h.record ⟨301, 0⟩).1 = .checkpoint 1 ∧ (h.record ⟨6, 0⟩).1 = .coalesced := by
  decide

/-! ## Recording on and off -/

/-- Whether the call turns recording on or off, if it does either. -/
def Call.switch? : Call → Option Bool
  | .mark nextMove => some (nextMove != .ignore)
  | .setRecording on => some on
  | .clear => some true
  | .record _ | .back | .forward => none

/-- A move takes back a mark for a single move, but not that moves are ignored. -/
theorem nextMove_record (h : History) (position : Position) :
    (h.record position).2.nextMove = if h.nextMove = .ignore then .ignore else .record := by
  unfold History.record
  split
  · next hn => simp [hn]
  · next hn => simp [hn]
  · next hn => split <;> simp [hn]
  · next hn =>
    dsimp only
    split
    · simp [place, hn]
    · split <;> simp [overwrite, hn]

theorem isRecording_iff {h : History} : h.isRecording = true ↔ h.nextMove ≠ .ignore := by
  simp [isRecording]

theorem isRecording_record (h : History) (position : Position) :
    (h.record position).2.isRecording = h.isRecording := by
  rw [Bool.eq_iff_iff, isRecording_iff, isRecording_iff, nextMove_record]
  split <;> simp [*]

theorem isRecording_go (h : History) (d : Direction) : (h.go d).2.isRecording = h.isRecording := by
  obtain hgo | ⟨p, position, hgo⟩ := h.go_cases d
  · rw [hgo]
  · rw [hgo, Bool.eq_iff_iff, isRecording_iff, isRecording_iff]
    dsimp only [landed]
    split <;> simp [*]

theorem isRecording_perform (h : History) (c : Call) :
    (h.perform c).2.isRecording = c.switch?.getD h.isRecording := by
  cases c with
  | record position => exact h.isRecording_record position
  | mark nextMove => rfl
  | setRecording on => cases on <;> rfl
  | back => exact h.isRecording_go .back
  | forward => exact h.isRecording_go .forward
  | clear => rfl

/-- The last of some calls that switches recording decides whether it is on after them. -/
theorem isRecording_run (h : History) (calls : List Call) :
    (h.run calls).isRecording = (calls.filterMap Call.switch?).getLast?.getD h.isRecording := by
  induction calls using List.reverseRecOn with
  | nil => rfl
  | append_singleton calls c ih =>
    rw [run_concat, isRecording_perform, ih, List.filterMap_append]
    cases hc : c.switch? <;> simp [hc]

theorem record_of_not_isRecording {h : History} (hoff : h.isRecording = false)
    (position : Position) : h.record position = (.disabled, h) := by
  have hn : h.nextMove = .ignore := by simpa [isRecording] using hoff
  simp only [History.record, hn]

theorem record_ne_disabled {h : History} (hon : h.isRecording = true) (position : Position) :
    (h.record position).1 ≠ .disabled := by
  unfold History.record
  split
  · next hn => simp [isRecording, hn] at hon
  · simp
  · split <;> simp
  · dsimp only
    split
    · simp
    · split <;> simp

/-- How a history treats moves after recording was turned off and some calls came. -/
structure Switched (after : History) (calls : List Call) : Prop where
  /-- It is still off unless the last call that switches it turned it on. -/
  isRecording : after.isRecording = false ↔
    (calls.filterMap Call.switch?).getLast? ≠ some true
  /-- As long as it is off, moves are disabled and change nothing. -/
  disabled : after.isRecording = false → ∀ position, after.record position = (.disabled, after)
  /-- Once it is on, no move is disabled. -/
  enabled : after.isRecording = true → ∀ position, (after.record position).1 ≠ .disabled
  /-- Calls that turn nothing on leave it off. -/
  undisturbed : (∀ c ∈ calls, c.switch? ≠ some true) → after.isRecording = false

/-- Recording that was turned off is off until a call switches it, and marks do that as well. -/
theorem switched_run (h : History) (calls : List Call) :
    Switched ((h.setRecording false).run calls) calls := by
  have hoff : ((h.setRecording false).run calls).isRecording = false ↔
      (calls.filterMap Call.switch?).getLast? ≠ some true := by
    rw [isRecording_run]
    cases (calls.filterMap Call.switch?).getLast? <;> simp [setRecording, mark, isRecording]
  refine ⟨hoff, record_of_not_isRecording, record_ne_disabled, fun hquiet => hoff.2 fun hlast => ?_⟩
  obtain ⟨c, hc, hon⟩ := List.mem_filterMap.1 (List.mem_of_getLast? hlast)
  exact hquiet c hc hon

/-- A mark for a single move turns recording on again for good. -/
theorem mark_turns_recording_on :
    let h := run { radius := 1 } [.record ⟨5, 0⟩, .setRecording false, .mark .skip]
    h.isRecording = true ∧ (h.record ⟨50, 0⟩).1 = .skipped ∧
      ((h.record ⟨50, 0⟩).2.record ⟨100, 0⟩).1 = .checkpoint 1 := by
  decide

end History

end ScriptDesk
