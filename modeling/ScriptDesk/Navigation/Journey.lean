import ScriptDesk.Navigation.Call

/-!
# ScriptDesk.Navigation.Journey

Going back and forth in a history. A step that leads somewhere moves the caret there, and the
editing surface may report that move like any other: it echoes the jump. The history leaves
this one move out, so that a journey changes nothing but the place.
-/

namespace ScriptDesk

/-- One of the two ways through a history. -/
inductive Direction where
  | back
  | forward
deriving DecidableEq, Repr

namespace Direction

def opposite : Direction → Direction
  | .back => .forward
  | .forward => .back

/-- The pointer is not at the bound that lies in this direction. -/
def CanGo (p : Pointers) : Direction → Prop
  | .back => 0 < p.current
  | .forward => p.current < p.last

instance (p : Pointers) (d : Direction) : Decidable (d.CanGo p) :=
  match d with
  | .back => inferInstanceAs (Decidable (0 < p.current))
  | .forward => inferInstanceAs (Decidable (p.current < p.last))

/-- The slot that is next to `current` in this direction, held between the first slot and
`last`. -/
def next (last : Nat) : Direction → (current : Nat) → Nat
  | .back, current => current - 1
  | .forward, current => min (current + 1) last

/-- The pointers after one step. -/
def move (d : Direction) (p : Pointers) : Pointers := { p with current := d.next p.last p.current }

theorem move_of_not_canGo {d : Direction} {p : Pointers} (hp : p.current ≤ p.last)
    (hd : ¬ d.CanGo p) : d.move p = p := by
  obtain ⟨current, last⟩ := p
  cases d with
  | back =>
    obtain rfl : current = 0 := by simpa [CanGo] using hd
    rfl
  | forward =>
    obtain rfl : current = last := Nat.le_antisymm hp (Nat.not_lt.1 hd)
    simp [move, next]

theorem move_le {d : Direction} {p : Pointers} (hp : p.current ≤ p.last) :
    (d.move p).current ≤ (d.move p).last := by
  cases d with
  | back => exact Nat.le_trans (Nat.sub_le ..) hp
  | forward => exact Nat.min_le_right ..

/-- A step that was possible can be taken back. -/
theorem canGo_opposite {d : Direction} {p : Pointers} (hp : p.current ≤ p.last)
    (hd : d.CanGo p) : d.opposite.CanGo (d.move p) := by
  cases d <;> simp only [opposite, CanGo, move, next] at hd ⊢ <;> omega

theorem move_opposite {d : Direction} {p : Pointers} (hp : p.current ≤ p.last) (hd : d.CanGo p) :
    d.opposite.move (d.move p) = p := by
  obtain ⟨current, last⟩ := p
  cases d <;> simp only [opposite, CanGo, move, next, Pointers.mk.injEq, and_true] at hp hd ⊢ <;>
    omega

end Direction

namespace History

/-- Goes one checkpoint in a direction. -/
def go (h : History) : Direction → Option Position × History
  | .back => h.back
  | .forward => h.forward

/-- The history after a jump to a position, to which `p` points. -/
def landed (h : History) (p : Pointers) (position : Position) : History :=
  { h with
    pointers := some p
    lastLine := some position.line
    nextMove := if h.nextMove = .ignore then .ignore else .skip }

/-- A step of a journey. -/
structure Step where
  direction : Direction
  /-- What the caret reports if the step makes it jump; it may also report nothing. -/
  echo : Option Position := none
deriving DecidableEq, Repr

/-- Takes a step. It answers where the caret jumps, and only a jump is echoed. -/
def take (h : History) (s : Step) : Option Position × History :=
  match h.go s.direction, s.echo with
  | (some target, h), some position => (some target, (h.record position).2)
  | (target, h), _ => (target, h)

/-- The history after some steps. -/
def travel (h : History) (steps : List Step) : History := steps.foldl (fun h s => (h.take s).2) h

/-- Where the caret jumps at each of some steps. -/
def targets (h : History) : List Step → List (Option Position)
  | [] => []
  | s :: rest => (h.take s).1 :: (h.take s).2.targets rest

@[simp] theorem travel_nil (h : History) : h.travel [] = h := rfl

@[simp] theorem travel_cons (h : History) (s : Step) (rest : List Step) :
    h.travel (s :: rest) = (h.take s).2.travel rest := rfl

theorem travel_append (h : History) (steps more : List Step) :
    h.travel (steps ++ more) = (h.travel steps).travel more := by simp [travel]

theorem targets_append (h : History) (steps more : List Step) :
    h.targets (steps ++ more) = h.targets steps ++ (h.travel steps).targets more := by
  induction steps generalizing h with
  | nil => rfl
  | cons s rest ih => simp [targets, ih]

/-! ## What a step can do -/

theorem land_of_getElem? {h : History} {current last : Nat} {position : Position}
    (hat : h.slots[current]? = some position) :
    h.land current last = (some position, h.landed ⟨current, last⟩ position) := by
  unfold land
  rw [hat]
  rfl

theorem land_cases (h : History) (current last : Nat) :
    h.land current last = (none, h) ∨
      ∃ p position, h.land current last = (some position, h.landed p position) := by
  cases hat : h.slots[current]? with
  | none => exact .inl (by simp only [land, hat])
  | some position => exact .inr ⟨_, position, land_of_getElem? hat⟩

/-- A step leads nowhere and changes nothing, or it is a jump. -/
theorem go_cases (h : History) (d : Direction) :
    h.go d = (none, h) ∨ ∃ p position, h.go d = (some position, h.landed p position) := by
  cases d with
  | back =>
    simp only [go, History.back]
    split
    · exact h.land_cases ..
    · exact .inl rfl
  | forward =>
    simp only [go, History.forward]
    split
    · split
      · exact h.land_cases ..
      · exact .inl rfl
    · exact .inl rfl

variable {h : History} {d : Direction} {p : Pointers}

theorem go_of_empty (hp : h.pointers = none) : h.go d = (none, h) := by
  cases d <;> simp only [go, History.back, History.forward, hp]

theorem go_of_not_canGo (hp : h.pointers = some p) (hd : ¬ d.CanGo p) : h.go d = (none, h) := by
  obtain ⟨current, last⟩ := p
  cases d with
  | back =>
    obtain rfl : current = 0 := by simpa [Direction.CanGo] using hd
    simp only [go, History.back, hp]
  | forward => simp only [go, History.forward, hp, if_neg (show ¬ current < last from hd)]

/-- Off the bound a step makes the slot next to the current one current. -/
theorem go_eq_land (hp : h.pointers = some p) (hd : d.CanGo p) :
    h.go d = h.land (d.move p).current (d.move p).last := by
  obtain ⟨current, last⟩ := p
  cases d with
  | back =>
    obtain ⟨before, rfl⟩ := Nat.exists_eq_succ_of_ne_zero (Nat.ne_of_gt hd)
    simp only [go, History.back, hp]
    rfl
  | forward =>
    have hlt : current < last := hd
    have hnext : min (current + 1) last = current + 1 := Nat.min_eq_left hlt
    simp only [go, History.forward, hp, if_pos hlt, Direction.move, Direction.next, hnext]

/-- It jumps to the checkpoint that lies there. -/
theorem InBounds.exists_go (hb : h.InBounds) (hp : h.pointers = some p) (hd : d.CanGo p) :
    ∃ position, h.slots[(d.move p).current]? = some position ∧
      h.go d = (some position, h.landed (d.move p) position) := by
  obtain ⟨hle, hlast⟩ := hb p hp
  have hslot : (d.move p).current < h.slots.length :=
    Nat.lt_of_le_of_lt (Direction.move_le hle) hlast
  have hat := List.getElem?_eq_getElem hslot
  exact ⟨_, hat, (go_eq_land hp hd).trans (land_of_getElem? hat)⟩

/-- The move that echoes a jump is left out: only the mark to leave it out is gone. -/
theorem record_landed (h : History) (p : Pointers) (target position : Position) :
    ∃ nextMove, ((h.landed p target).record position).2 = { h.landed p target with nextMove } := by
  by_cases hn : h.nextMove = .ignore
  · exact ⟨.ignore, by simp [History.record, landed, hn]⟩
  · exact ⟨.record, by simp [History.record, landed, hn]⟩

end History

end ScriptDesk
