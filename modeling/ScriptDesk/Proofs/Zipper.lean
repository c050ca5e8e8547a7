import Mathlib.Data.List.Induction
import ScriptDesk.Navigation.Zipper

/-!
# ScriptDesk.Proofs.Zipper

A history of slots and pointers is a browser history (`History.actsAsBrowser_run`). The positions
of the zipper lie in the first slots, in order, and what lies behind them is cut off:
it is overwritten sooner or later, and until then nothing looks at it (`History.Lies`).
So each call does to the slots what it does to the zipper, and both answer the same
(`History.Shows.perform`).

A history has no pointers exactly as long as nothing was recorded in it. With pointers it
has a last line, so a move that is to be recorded finds a checkpoint to overwrite or a
slot to go to.
-/

namespace ScriptDesk

/-! ## Steps of a zipper -/

namespace Zipper

variable {z target : Zipper}

theorem back?_eq_none_iff : z.back? = none ↔ z.past = [] := by
  simp [back?]

theorem forward?_eq_none_iff : z.forward? = none ↔ z.future = [] := by
  simp [forward?]

/-- A step back passes one position over to the future. -/
theorem of_back?_eq_some (h : z.back? = some target) :
    target.toList = z.toList ∧
      z.pointers = ⟨target.pointers.current + 1, target.pointers.last⟩ := by
  obtain ⟨past, current, future⟩ := z
  rcases List.eq_nil_or_concat past with rfl | ⟨past, position, rfl⟩
  · contradiction
  · obtain rfl : (⟨past, position, current :: future⟩ : Zipper) = target := by
      simpa [back?] using h
    simp [toList, pointers]
    omega

/-- A step forward passes one position over to the past. -/
theorem of_forward?_eq_some (h : z.forward? = some target) :
    target.toList = z.toList ∧
      target.pointers = ⟨z.pointers.current + 1, z.pointers.last⟩ := by
  obtain ⟨past, current, future⟩ := z
  cases future with
  | nil => contradiction
  | cons position future =>
    obtain rfl : (⟨past ++ [current], position, future⟩ : Zipper) = target := by
      simpa [forward?] using h
    simp [toList, pointers]
    omega

/-- A visit puts only itself among the positions. -/
theorem of_mem_visit {position moved : Position} (h : position ∈ (z.visit moved).toList) :
    position ∈ z.toList ∨ position = moved := by
  simp only [toList, visit, List.mem_append, List.mem_singleton] at h ⊢
  tauto

theorem of_mem_replace {position moved : Position} (h : position ∈ (z.replace moved).toList) :
    position ∈ z.toList ∨ position = moved := by
  simp only [toList, replace, List.mem_append, List.mem_singleton] at h ⊢
  tauto

theorem length_toList (z : Zipper) : z.toList.length = z.length := by
  simp [toList, length]
  omega

theorem length_eq (z : Zipper) : z.length = z.pointers.last + 1 := Nat.add_right_comm ..

end Zipper

namespace History

/-! ## The zipper in the slots -/

/-- Where the positions of a zipper lie: in the first slots, with the pointers on them. -/
inductive Lies : Option Zipper → (slots : List Position) → Option Pointers → Prop where
  | nowhere (cutOff : List Position) : Lies none cutOff none
  | inFront (z : Zipper) (cutOff : List Position) :
      Lies (some z) (z.toList ++ cutOff) (some z.pointers)

/-- The history shows the same as a browser history. -/
structure Shows (h : History) (b : BrowserHistory) : Prop where
  lies : Lies b.zipper h.slots h.pointers
  lastLine : h.lastLine = b.lastLine
  nextMove : h.nextMove = b.nextMove
  radius : h.radius = b.radius
  /-- There is a last line exactly if something was recorded. -/
  recorded : b.lastLine.isSome = b.zipper.isSome

theorem shows_new (radius : Nat) : Shows { radius } { radius } :=
  ⟨.nowhere [], rfl, rfl, rfl, rfl⟩

variable {h : History} {b : BrowserHistory}

section Slots

variable {slots : List Position} {pointers : Option Pointers} {z : Zipper}

theorem Lies.pointers_eq {zipper : Option Zipper} (hl : Lies zipper slots pointers) :
    pointers = zipper.map (·.pointers) := by
  cases hl <;> rfl

theorem Lies.exists_cutOff (hl : Lies (some z) slots pointers) :
    ∃ cutOff, slots = z.toList ++ cutOff := by
  cases hl with
  | inFront _ cutOff => exact ⟨cutOff, rfl⟩

theorem lies_of_eq {cutOff : List Position} (hs : slots = z.toList ++ cutOff) :
    Lies (some z) slots (some z.pointers) :=
  hs ▸ .inFront z cutOff

theorem Lies.replace (hl : Lies (some z) slots pointers) (position : Position) :
    Lies (some (z.replace position)) (slots.set z.past.length position) pointers := by
  obtain ⟨cutOff, rfl⟩ := hl.exists_cutOff
  rw [hl.pointers_eq]
  have hslots : (z.toList ++ cutOff).set z.past.length position =
      (z.replace position).toList ++ cutOff := by simp [Zipper.toList, Zipper.replace]
  exact lies_of_eq (z := z.replace position) hslots

end Slots

/-- What lies in front of a new checkpoint stays, and so does what lies behind it, cut
off. -/
theorem slots_place {before after : List Position} (hs : h.slots = before ++ after)
    (position : Position) :
    (h.place position before.length).slots = before ++ position :: after.tail := by
  cases after <;> simp [place, hs]

theorem Lies.visit {z : Zipper} {pointers : Option Pointers} (hl : Lies (some z) h.slots pointers)
    (position : Position) :
    Lies (some (z.visit position)) (h.place position (z.past.length + 1)).slots
      (h.place position (z.past.length + 1)).pointers := by
  obtain ⟨cutOff, hs⟩ := hl.exists_cutOff
  have hfront : h.slots = (z.past ++ [z.current]) ++ (z.future ++ cutOff) := by
    simp [hs, Zipper.toList]
  have hlength : (z.past ++ [z.current]).length = z.past.length + 1 := List.length_append
  have hslots := slots_place hfront position
  rw [hlength] at hslots
  have hpointers : (h.place position (z.past.length + 1)).pointers =
      some (z.visit position).pointers := by
    simp [place, Zipper.pointers, Zipper.visit]
  rw [hpointers]
  have hslots' : (h.place position (z.past.length + 1)).slots =
      (z.visit position).toList ++ (z.future ++ cutOff).tail := by
    simp [hslots, Zipper.toList, Zipper.visit]
  exact lies_of_eq hslots'

/-! ## Calls -/

/-- The same is answered, and the same is shown after that. -/
def ShowsAfter {α : Type} (x : α × History) (y : α × BrowserHistory) : Prop :=
  x.1 = y.1 ∧ x.2.Shows y.2

theorem Shows.record (hs : h.Shows b) (position : Position) :
    ShowsAfter (h.record position) (b.record position) := by
  obtain ⟨slots, pointers, lastLine, nextMove, radius⟩ := h
  obtain ⟨zipper, _, _, _⟩ := b
  obtain ⟨hl, rfl, rfl, rfl, hrecorded⟩ := hs
  dsimp only at hl hrecorded
  obtain rfl := hl.pointers_eq
  cases nextMove with
  | ignore => exact ⟨rfl, hl, rfl, rfl, rfl, hrecorded⟩
  | skip => exact ⟨rfl, hl, rfl, rfl, rfl, hrecorded⟩
  | override =>
    cases zipper with
    | none => exact ⟨rfl, hl, rfl, rfl, rfl, hrecorded⟩
    | some z => exact ⟨rfl, hl.replace position, rfl, rfl, rfl, hrecorded⟩
  | record =>
    let moved : History :=
      { slots, pointers := zipper.map (·.pointers), lastLine := some position.line, radius }
    cases zipper with
    | none =>
      -- Nothing was recorded before, so there is no line that the move could be near to.
      obtain rfl : lastLine = none := by simpa using hrecorded
      have hfront : moved.slots = [] ++ slots := rfl
      have hslots := slots_place hfront position
      exact ⟨rfl, hslots ▸ lies_of_eq (z := { current := position }) rfl, rfl, rfl, rfl, rfl⟩
    | some z =>
      unfold History.record BrowserHistory.record
      dsimp only [Option.map_some]
      split
      · exact ⟨rfl, hl.visit (h := moved) position, rfl, rfl, rfl, rfl⟩
      · exact ⟨rfl, hl.replace position, rfl, rfl, rfl, rfl⟩

theorem Shows.mark (hs : h.Shows b) (nextMove : NextMove) :
    (h.mark nextMove).Shows (b.mark nextMove) :=
  { hs with nextMove := rfl }

/-- A step to another of the positions is a jump to the slot in which it lies. -/
theorem Shows.go (hs : h.Shows b) {z target : Zipper} (hz : b.zipper = some z)
    (hsame : target.toList = z.toList) :
    ShowsAfter (h.land target.pointers.current target.pointers.last) (b.go (some target)) := by
  obtain ⟨hl, hline, hnext, hradius, hrecorded⟩ := hs
  obtain ⟨cutOff, hslots⟩ := Lies.exists_cutOff (hz ▸ hl)
  rw [← hsame] at hslots
  have hat : h.slots[target.pointers.current]? = some target.current := by
    simp [hslots, Zipper.toList, Zipper.pointers]
  unfold land
  rw [hat]
  exact ⟨rfl, lies_of_eq hslots, rfl, by rw [hnext]; rfl, hradius, rfl⟩

theorem Shows.back (hs : h.Shows b) : ShowsAfter h.back b.back := by
  have hpointers := hs.lies.pointers_eq
  unfold History.back BrowserHistory.back
  cases hz : b.zipper with
  | none =>
    rw [hpointers, hz]
    exact ⟨rfl, hs⟩
  | some z =>
    rw [hpointers, hz, Option.map_some, Option.bind_some]
    cases ht : z.back? with
    | none =>
      have hcurrent : z.pointers = ⟨0, z.pointers.last⟩ := by
        simp [Zipper.pointers, Zipper.back?_eq_none_iff.1 ht]
      rw [hcurrent]
      exact ⟨rfl, hs⟩
    | some target =>
      obtain ⟨hsame, hcurrent⟩ := Zipper.of_back?_eq_some ht
      rw [hcurrent]
      exact hs.go hz hsame

theorem Shows.forward (hs : h.Shows b) : ShowsAfter h.forward b.forward := by
  have hpointers := hs.lies.pointers_eq
  unfold History.forward BrowserHistory.forward
  cases hz : b.zipper with
  | none =>
    rw [hpointers, hz]
    exact ⟨rfl, hs⟩
  | some z =>
    rw [hpointers, hz, Option.map_some, Option.bind_some]
    dsimp only
    cases ht : z.forward? with
    | none =>
      have hlast : ¬ z.pointers.current < z.pointers.last := by
        simp [Zipper.pointers, Zipper.forward?_eq_none_iff.1 ht]
      rw [if_neg hlast]
      exact ⟨rfl, hs⟩
    | some target =>
      obtain ⟨hsame, hcurrent⟩ := Zipper.of_forward?_eq_some ht
      have hlt : z.pointers.current < z.pointers.last := by
        have h₁ := congrArg Pointers.current hcurrent
        have h₂ := congrArg Pointers.last hcurrent
        simp only [Zipper.pointers] at h₁ h₂ ⊢
        omega
      have hgo := hs.go hz hsame
      rw [hcurrent] at hgo
      rw [if_pos hlt]
      exact hgo

/-- Every call answers the same as in the browser history, and leaves the two alike. -/
theorem Shows.perform (hs : h.Shows b) (c : Call) : ShowsAfter (h.perform c) (b.perform c) := by
  cases c with
  | record position =>
    obtain ⟨hout, hs⟩ := hs.record position
    exact ⟨congrArg (fun outcome => some (Reply.moved outcome)) hout, hs⟩
  | mark nextMove => exact ⟨rfl, hs.mark nextMove⟩
  | setRecording on => exact ⟨rfl, hs.mark _⟩
  | back =>
    obtain ⟨hout, hs⟩ := hs.back
    exact ⟨congrArg (fun target => some (Reply.jump target)) hout, hs⟩
  | forward =>
    obtain ⟨hout, hs⟩ := hs.forward
    exact ⟨congrArg (fun target => some (Reply.jump target)) hout, hs⟩
  | clear =>
    obtain ⟨-, -, -, hradius, -⟩ := hs
    refine ⟨rfl, ?_⟩
    change Shows { radius := h.radius } { radius := b.radius }
    rw [hradius]
    exact shows_new _

/-! ## Runs -/

theorem Shows.run (hs : h.Shows b) (calls : List Call) : (h.run calls).Shows (b.run calls) := by
  induction calls generalizing h b with
  | nil => exact hs
  | cons c rest ih => exact ih (hs.perform c).2

theorem Shows.replies (hs : h.Shows b) (calls : List Call) : h.replies calls = b.replies calls := by
  induction calls generalizing h b with
  | nil => rfl
  | cons c rest ih =>
    obtain ⟨hout, hs⟩ := hs.perform c
    rw [History.replies, BrowserHistory.replies, hout, ih hs]

/-! ## Views -/

theorem Shows.checkpoints (hs : h.Shows b) : h.checkpoints = b.checkpoints := by
  unfold History.checkpoints BrowserHistory.checkpoints
  rw [hs.lies.pointers_eq]
  cases hz : b.zipper with
  | none => rfl
  | some z =>
    obtain ⟨cutOff, hslots⟩ := Lies.exists_cutOff (hz ▸ hs.lies)
    exact (congrArg _ hslots).trans (List.take_left' (z.length_toList.trans z.length_eq))

theorem Shows.length (hs : h.Shows b) : h.length = b.length := by
  unfold History.length BrowserHistory.length
  rw [hs.checkpoints, BrowserHistory.checkpoints]
  cases b.zipper with
  | none => rfl
  | some z => exact z.length_toList

theorem Shows.current? (hs : h.Shows b) : h.current? = b.current? := by
  unfold History.current? BrowserHistory.current?
  rw [hs.lies.pointers_eq]
  cases hz : b.zipper with
  | none => rfl
  | some z =>
    obtain ⟨cutOff, hslots⟩ := Lies.exists_cutOff (hz ▸ hs.lies)
    simp [hslots, Zipper.toList, Zipper.pointers]

theorem Shows.isEmpty (hs : h.Shows b) : h.isEmpty = b.isEmpty := by
  unfold History.isEmpty BrowserHistory.isEmpty
  rw [hs.lies.pointers_eq, Option.isNone_map]

theorem Shows.affordances (hs : h.Shows b) : h.affordances = b.affordances := by
  unfold History.affordances BrowserHistory.affordances
  rw [hs.lies.pointers_eq]
  cases b.zipper with
  | none => rfl
  | some z =>
    obtain ⟨past, current, future⟩ := z
    cases past <;> cases future <;>
      simp [Affordances.ofPointers, Zipper.pointers, Zipper.affordances]

/-! ## What is cut off -/

/-- The slots behind the last checkpoint have no effect, whatever they hold. -/
theorem Shows.withCutOff (hs : h.Shows b) (cutOff : List Position) :
    Shows { h with slots := h.checkpoints ++ cutOff } b := by
  refine { hs with lies := ?_ }
  have hpointers := hs.lies.pointers_eq
  have hcheckpoints := hs.checkpoints
  unfold BrowserHistory.checkpoints at hcheckpoints
  dsimp only
  rw [hcheckpoints, hpointers]
  cases b.zipper with
  | none => exact .nowhere cutOff
  | some z => exact .inFront z cutOff

end History

namespace BrowserHistory

variable {b : BrowserHistory} {position : Position}

theorem mem_checkpoints_iff :
    position ∈ b.checkpoints ↔ ∃ z, b.zipper = some z ∧ position ∈ z.toList := by
  unfold checkpoints
  cases b.zipper <;> simp

/-- A step among the same positions keeps what can be reached. -/
theorem checkpoints_go {z target : Zipper} (hz : b.zipper = some z)
    (hsame : target.toList = z.toList) :
    (b.go (some target)).2.checkpoints = b.checkpoints := by
  simp [checkpoints, go, hz, hsame]

theorem checkpoints_back (b : BrowserHistory) : b.back.2.checkpoints = b.checkpoints := by
  unfold back
  cases hz : b.zipper with
  | none => rfl
  | some z =>
    rw [Option.bind_some]
    cases ht : z.back? with
    | none => rfl
    | some target => exact checkpoints_go hz (Zipper.of_back?_eq_some ht).1

theorem checkpoints_forward (b : BrowserHistory) : b.forward.2.checkpoints = b.checkpoints := by
  unfold forward
  cases hz : b.zipper with
  | none => rfl
  | some z =>
    rw [Option.bind_some]
    cases ht : z.forward? with
    | none => rfl
    | some target => exact checkpoints_go hz (Zipper.of_forward?_eq_some ht).1

/-- A move puts only itself among what can be reached. -/
theorem of_mem_checkpoints_record {moved : Position}
    (h : position ∈ (b.record moved).2.checkpoints) :
    position ∈ b.checkpoints ∨ position = moved := by
  obtain ⟨zipper, lastLine, nextMove, radius⟩ := b
  rw [mem_checkpoints_iff] at h ⊢
  obtain ⟨z', hz', hmem⟩ := h
  cases nextMove with
  | ignore => exact .inl ⟨z', hz', hmem⟩
  | skip => exact .inl ⟨z', hz', hmem⟩
  | override =>
    cases zipper with
    | none => contradiction
    | some z =>
      obtain rfl : z.replace moved = z' := by simpa [record] using hz'
      exact (Zipper.of_mem_replace hmem).imp_left fun hm => ⟨z, rfl, hm⟩
  | record =>
    cases zipper with
    | none =>
      obtain rfl : ({ current := moved } : Zipper) = z' := by simpa [record] using hz'
      exact .inr (by simpa [Zipper.toList] using hmem)
    | some z =>
      unfold record at hz'
      dsimp only at hz'
      split at hz'
      · obtain rfl : z.visit moved = z' := by simpa using hz'
        exact (Zipper.of_mem_visit hmem).imp_left fun hm => ⟨z, rfl, hm⟩
      · obtain rfl : z.replace moved = z' := by simpa using hz'
        exact (Zipper.of_mem_replace hmem).imp_left fun hm => ⟨z, rfl, hm⟩

end BrowserHistory

/-- What can be reached after a call could be reached before it, or is recorded by it. -/
theorem BrowserHistory.of_mem_checkpoints_perform {b : BrowserHistory} {c : History.Call}
    {position : Position} (h : position ∈ (b.perform c).2.checkpoints) :
    position ∈ b.checkpoints ∨ c = .record position := by
  cases c with
  | record moved => exact (of_mem_checkpoints_record h).imp_right (congrArg _ ·.symm)
  | mark nextMove => exact .inl h
  | setRecording on => exact .inl h
  | back => exact .inl (b.checkpoints_back ▸ h)
  | forward => exact .inl (b.checkpoints_forward ▸ h)
  | clear => contradiction

/-- A move leaves nothing recorded exactly if nothing was recorded before it and it is left
out. -/
theorem BrowserHistory.zipper_record_eq_none_iff (b : BrowserHistory) (position : Position) :
    (b.record position).2.zipper = none ↔
      b.zipper = none ∧ (b.record position).1.isRecorded = false := by
  obtain ⟨zipper, lastLine, nextMove, radius⟩ := b
  cases nextMove with
  | ignore | skip => simp [record, MoveOutcome.isRecorded]
  | override => cases zipper <;> simp [record, MoveOutcome.isRecorded]
  | record =>
    cases zipper with
    | none => simp [record, MoveOutcome.isRecorded]
    | some z =>
      unfold record
      dsimp only
      split <;> simp

/-- A step to somewhere or nowhere leaves something recorded as it is. -/
theorem BrowserHistory.zipper_go_eq_none_iff (b : BrowserHistory) (step : Zipper → Option Zipper) :
    (b.go (b.zipper.bind step)).2.zipper = none ↔ b.zipper = none := by
  cases hz : b.zipper with
  | none => simp [go, hz]
  | some z => cases ht : step z <;> simp [go, hz, ht]

/-- Nothing is recorded after a call exactly if it clears the history, or if nothing was
recorded before and it records nothing. -/
theorem BrowserHistory.zipper_perform_eq_none_iff (b : BrowserHistory) (c : History.Call) :
    (b.perform c).2.zipper = none ↔
      c = .clear ∨ b.zipper = none ∧
        ∀ outcome, (b.perform c).1 = some (.moved outcome) → outcome.isRecorded = false := by
  cases c with
  | record position => simpa [perform] using b.zipper_record_eq_none_iff position
  | mark nextMove => simp [perform, mark]
  | setRecording on => simp [perform, setRecording, mark]
  | back => simpa [perform, back] using b.zipper_go_eq_none_iff Zipper.back?
  | forward => simpa [perform, forward] using b.zipper_go_eq_none_iff Zipper.forward?
  | clear => simp [perform, clear]

namespace History

variable {h : History} {b : BrowserHistory}

/-! ## Recorded moves -/

/-- After the last of the calls that clears the history, no move was recorded. -/
def NothingRecorded (radius : Nat) (calls : List Call) : Prop :=
  ∃ before after, calls = before ++ after ∧
    (before = [] ∨ ∃ earlier, before = earlier ++ [.clear]) ∧
    ∀ outcome, .moved outcome ∈ (run { radius } before).replies after → outcome.isRecorded = false

theorem pointers_perform_eq_none_iff (hs : h.Shows b) (c : Call) :
    (h.perform c).2.pointers = none ↔
      c = .clear ∨ h.pointers = none ∧
        ∀ outcome, (h.perform c).1 = some (.moved outcome) → outcome.isRecorded = false := by
  obtain ⟨hout, hs'⟩ := hs.perform c
  rw [hs'.lies.pointers_eq, hs.lies.pointers_eq, Option.map_eq_none_iff, Option.map_eq_none_iff,
    hout]
  exact b.zipper_perform_eq_none_iff c

theorem replies_concat (h : History) (calls : List Call) (c : Call) :
    h.replies (calls ++ [c]) = h.replies calls ++ ((h.run calls).perform c).1.toList := by
  simp [replies_append, replies]

theorem NothingRecorded.concat_clear {radius : Nat} (calls : List Call) :
    NothingRecorded radius (calls ++ [.clear]) :=
  ⟨calls ++ [.clear], [], by simp, .inr ⟨calls, rfl⟩, by simp [replies]⟩

/-- Unless it clears the history, a call has to record nothing for nothing to be
recorded after it. -/
theorem nothingRecorded_concat_iff {radius : Nat} {calls : List Call} {c : Call} :
    NothingRecorded radius (calls ++ [c]) ↔
      c = .clear ∨ NothingRecorded radius calls ∧
        ∀ outcome, ((run { radius } calls).perform c).1 = some (.moved outcome) →
          outcome.isRecorded = false := by
  constructor
  · rintro ⟨before, after, hcalls, hbefore, hnone⟩
    rcases List.eq_nil_or_concat after with rfl | ⟨after, c', rfl⟩
    · obtain rfl | ⟨earlier, rfl⟩ := hbefore
      · simp at hcalls
      · simp at hcalls
        exact .inl hcalls.2
    · rw [List.concat_eq_append] at hcalls hnone
      rw [← List.append_assoc] at hcalls
      obtain ⟨rfl, hc⟩ := List.append_inj' hcalls rfl
      obtain rfl : c = c' := by simpa using hc
      simp only [replies_concat, ← run_append, List.mem_append] at hnone
      refine .inr ⟨⟨before, after, rfl, hbefore, fun outcome hm => hnone outcome (.inl hm)⟩, ?_⟩
      intro outcome hout
      exact hnone outcome (.inr (by simp [hout]))
  · rintro (rfl | ⟨⟨before, after, rfl, hbefore, hnone⟩, hout⟩)
    · exact .concat_clear calls
    · refine ⟨before, after ++ [c], by simp, hbefore, fun outcome hm => ?_⟩
      rw [replies_concat, List.mem_append, ← run_append, Option.mem_toList] at hm
      exact hm.elim (hnone outcome) (hout outcome)

theorem pointers_run_eq_none_iff (radius : Nat) (calls : List Call) :
    (run { radius } calls).pointers = none ↔ NothingRecorded radius calls := by
  induction calls using List.reverseRecOn with
  | nil => simpa using ⟨[], [], rfl, .inl rfl, by simp [replies]⟩
  | append_singleton calls c ih =>
    rw [run_concat, pointers_perform_eq_none_iff ((shows_new radius).run calls) c,
      nothingRecorded_concat_iff, ih]

/-- What could not be reached at one point cannot be reached later, unless a move goes
there. -/
theorem Shows.of_mem_checkpoints_run (hs : h.Shows b) {calls : List Call} {position : Position}
    (hm : position ∈ (h.run calls).checkpoints) :
    position ∈ h.checkpoints ∨ .record position ∈ calls := by
  induction calls generalizing h b with
  | nil => exact .inl hm
  | cons c rest ih =>
    have hs' := (hs.perform c).2
    obtain hm | hm := ih hs' hm
    · rw [hs'.checkpoints] at hm
      rw [hs.checkpoints]
      obtain hm | rfl := BrowserHistory.of_mem_checkpoints_perform hm
      · exact .inl hm
      · exact .inr (List.mem_cons_self ..)
    · exact .inr (List.mem_cons_of_mem _ hm)

/-! ## The whole history -/

/-- A new history that got some calls is a browser history that got them. -/
structure ActsAsBrowser (radius : Nat) (calls : List Call) (h : History) (b : BrowserHistory) :
    Prop where
  /-- The calls are answered alike. -/
  replies : History.replies { radius } calls = BrowserHistory.replies { radius } calls
  checkpoints : h.checkpoints = b.checkpoints
  length : h.length = b.length
  isEmpty : h.isEmpty = b.isEmpty
  current? : h.current? = b.current?
  affordances : h.affordances = b.affordances
  pointers : h.pointers = b.zipper.map (·.pointers)
  lastLine : h.lastLine = b.lastLine
  nextMove : h.nextMove = b.nextMove
  /-- The pointers stand on slots, and a check of them in front of every call would
  change nothing. -/
  inBounds : h.violation? = none
  unclamped : runChecked { radius } calls = h
  pointers_eq_none : h.pointers = none ↔ h.lastLine = none
  nothingRecorded : h.pointers = none ↔ NothingRecorded radius calls
  /-- A move that is to be recorded is. -/
  recorded : h.nextMove = .record → ∀ position, (h.record position).1 ≠ .skipped
  /-- What the slots behind the last checkpoint hold makes no difference, now or later. -/
  cutOff : ∀ (junk : List Position) (more : List Call),
    History.replies { h with slots := h.checkpoints ++ junk } more = h.replies more ∧
      (run { h with slots := h.checkpoints ++ junk } more).checkpoints = (h.run more).checkpoints
  /-- No position becomes reachable again without a move to it. -/
  gone : ∀ (more : List Call), ∀ position ∈ (h.run more).checkpoints,
    position ∈ h.checkpoints ∨ .record position ∈ more

theorem Shows.outcome_ne_skipped (hs : h.Shows b) (hn : h.nextMove = .record)
    (position : Position) : (h.record position).1 ≠ .skipped := by
  rw [(hs.record position).1]
  rw [hs.nextMove] at hn
  unfold BrowserHistory.record
  rw [hn]
  dsimp only
  split
  · split <;> simp
  · simp

/-- Whatever calls a new history gets, it acts as a browser history. -/
theorem actsAsBrowser_run (radius : Nat) (calls : List Call) :
    ActsAsBrowser radius calls (run { radius } calls) (BrowserHistory.run { radius } calls) := by
  have hs := (shows_new radius).run calls
  exact {
    replies := (shows_new radius).replies calls
    checkpoints := hs.checkpoints
    length := hs.length
    isEmpty := hs.isEmpty
    current? := hs.current?
    affordances := hs.affordances
    pointers := hs.lies.pointers_eq
    lastLine := hs.lastLine
    nextMove := hs.nextMove
    inBounds := violation?_eq_none_iff.2 ((inBounds_new radius).run calls)
    unclamped := (inBounds_new radius).runChecked calls
    pointers_eq_none := by
      rw [hs.lies.pointers_eq, hs.lastLine, Option.map_eq_none_iff, ← Option.isNone_iff_eq_none,
        ← Option.isNone_iff_eq_none, ← Option.not_isSome, ← Option.not_isSome, hs.recorded]
    nothingRecorded := pointers_run_eq_none_iff radius calls
    recorded := fun hn position => hs.outcome_ne_skipped hn position
    cutOff := fun junk more =>
      ⟨((hs.withCutOff junk).replies more).trans (hs.replies more).symm,
        ((hs.withCutOff junk).run more).checkpoints.trans (hs.run more).checkpoints.symm⟩
    gone := fun more position hm => hs.of_mem_checkpoints_run hm }

end History

end ScriptDesk
