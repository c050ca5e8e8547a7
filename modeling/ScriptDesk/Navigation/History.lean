import ScriptDesk.Text.Position

/-!
# ScriptDesk.Navigation.History

The back/forward history of one document. Caret moves are offered to the history
one at a time. A move within the coalescing radius of the last recorded line
overwrites the current checkpoint; a farther one makes a new checkpoint behind
it, and what could be reached by going forward is cut off.

The checkpoints lie in slots, with a pointer pair on them:

```
slots:  [ p0 ][ p1 ][ p2 ][ p3 ]
                ^current  ^last
```

The slots behind `last` are cut off; new checkpoints overwrite them.
-/

namespace ScriptDesk

/-- How the next caret move is treated. -/
inductive NextMove where
  /-- It coalesces with the current checkpoint or makes a new one. -/
  | record
  /-- It is left out: it only echoes a jump. -/
  | skip
  /-- It overwrites the current checkpoint. -/
  | override
  /-- It is left out, and so are all later ones until recording is turned on. -/
  | ignore
deriving DecidableEq, Repr, Inhabited

/-- What became of a caret move. -/
inductive MoveOutcome where
  /-- It made the checkpoint in this slot. -/
  | checkpoint (slot : Nat)
  | coalesced
  | overridden
  | skipped
  | disabled
deriving DecidableEq, Repr, Inhabited

/-- Which of the two commands can do something. -/
structure Affordances where
  back : Bool
  forward : Bool
deriving DecidableEq, Repr, Inhabited

/-- There is something behind unless the current slot is the first, and something
ahead unless it is the last. -/
def Affordances.ofPointers : (current last : Option Nat) → Affordances
  | some current, some last => ⟨0 < current, current < last⟩
  | _, _ => ⟨false, false⟩

/-- The slot of the current checkpoint and the last slot that can be reached. -/
structure Pointers where
  current : Nat
  last : Nat
deriving DecidableEq, Repr, Inhabited

/-- A move to `line` makes a checkpoint if nothing was recorded before, or if the
line is more than `radius` lines away from the last recorded one. -/
def startsCheckpoint (lastLine : Option Nat) (line radius : Nat) : Bool :=
  match lastLine with
  | none => true
  | some last => radius < (last - line) + (line - last)

/-- The history of one document. -/
structure History where
  slots : List Position := []
  pointers : Option Pointers := none
  /-- The line of the position recorded or returned to last. -/
  lastLine : Option Nat := none
  nextMove : NextMove := .record
  /-- Moves of at most this many lines coalesce. -/
  radius : Nat := 1
deriving DecidableEq, Repr, Inhabited

namespace History

/-! ## Views -/

/-- The current checkpoint. -/
def current? (h : History) : Option Position := h.pointers.bind fun p => h.slots[p.current]?

/-- The checkpoints that can be reached, first to last. -/
def checkpoints (h : History) : List Position :=
  match h.pointers with
  | some p => h.slots.take (p.last + 1)
  | none => []

/-- How many checkpoints can be reached. -/
def length (h : History) : Nat := h.checkpoints.length

/-- Nothing was recorded. -/
def isEmpty (h : History) : Bool := h.pointers.isNone

/-- Moves are recorded. -/
def isRecording (h : History) : Bool := h.nextMove != .ignore

/-- Which of back and forward can do something. -/
def affordances (h : History) : Affordances :=
  .ofPointers (h.pointers.map (·.current)) (h.pointers.map (·.last))

/-- The pointers stand on slots, the current one not behind the last one. -/
def InBounds (h : History) : Prop :=
  ∀ p, h.pointers = some p → p.current ≤ p.last ∧ p.last < h.slots.length

instance (h : History) : Decidable h.InBounds :=
  match hp : h.pointers with
  | none => .isTrue (by simp [InBounds, hp])
  | some p => decidable_of_iff (p.current ≤ p.last ∧ p.last < h.slots.length)
      (by simp [InBounds, hp])

/-! ## Recording -/

/-- Overwrites the current checkpoint. -/
def overwrite (h : History) (position : Position) (current : Nat) : History :=
  { h with slots := h.slots.set current position }

/-- Puts a checkpoint in a slot: an existing one is overwritten, else the slot
is added at the end. It becomes the current and the last one. -/
def place (h : History) (position : Position) (slot : Nat) : History :=
  { h with
    slots := if slot < h.slots.length then h.slots.set slot position else h.slots ++ [position]
    pointers := some ⟨slot, slot⟩ }

/-- The slot for the next checkpoint. -/
def nextSlot (h : History) : Nat := (h.pointers.map (·.current + 1)).getD 0

/-- Offers a caret move to the history. -/
def record (h : History) (position : Position) : MoveOutcome × History :=
  match h.nextMove with
  | .ignore => (.disabled, h)
  | .skip => (.skipped, { h with nextMove := .record })
  | .override =>
    match h.pointers with
    | some p => (.overridden, { h.overwrite position p.current with nextMove := .record })
    | none => (.skipped, { h with nextMove := .record })
  | .record =>
    let moved := { h with lastLine := some position.line }
    if startsCheckpoint h.lastLine position.line h.radius then
      (.checkpoint h.nextSlot, moved.place position h.nextSlot)
    else
      match h.pointers with
      | some p => (.coalesced, moved.overwrite position p.current)
      | none => (.skipped, moved)

/-- Says how the next move is treated. -/
def mark (h : History) (nextMove : NextMove) : History := { h with nextMove }

/-- Turns recording on or off for all later moves. -/
def setRecording (h : History) (on : Bool) : History :=
  h.mark (if on then .record else .ignore)

/-! ## Going back and forward -/

/-- Makes another slot current and answers its checkpoint, which the caret has
to jump to. The move that echoes the jump is left out. -/
def land (h : History) (current last : Nat) : Option Position × History :=
  match h.slots[current]? with
  | some position =>
    (some position,
      { h with
        pointers := some ⟨current, last⟩
        lastLine := some position.line
        nextMove := if h.nextMove = .ignore then .ignore else .skip })
  | none => (none, h)

/-- Goes one checkpoint back, unless the first one is current. -/
def back (h : History) : Option Position × History :=
  match h.pointers with
  | some ⟨current + 1, last⟩ => h.land current last
  | _ => (none, h)

/-- Goes one checkpoint forward, unless the last one is current. -/
def forward (h : History) : Option Position × History :=
  match h.pointers with
  | some ⟨current, last⟩ => if current < last then h.land (current + 1) last else (none, h)
  | none => (none, h)

/-- Forgets everything but the radius. -/
def clear (h : History) : History := { radius := h.radius }

/-! ## The pointers stay in bounds -/

theorem inBounds_new (radius : Nat) : InBounds { radius } := by simp [InBounds]

theorem InBounds.record {h : History} (hb : h.InBounds) (position : Position) :
    (h.record position).2.InBounds := by
  unfold History.record
  split
  · exact hb
  · exact hb
  · split
    · next p hp => simpa [InBounds, overwrite, hp] using hb p hp
    · next hp => simp [InBounds, hp]
  · simp only
    split
    · intro p hp
      simp only [place, Option.some.injEq] at hp
      subst hp
      refine ⟨Nat.le_refl _, ?_⟩
      simp only [place]
      split
      · simpa using ‹_ < _›
      · next hlt =>
        have : h.nextSlot ≤ h.slots.length := by
          unfold nextSlot
          cases hp : h.pointers with
          | none => simp
          | some p => have := hb p hp; simp; omega
        simp only [List.length_append, List.length_singleton]
        omega
    · split
      · next p hp => simpa [InBounds, overwrite, hp] using hb p hp
      · next hp => simp [InBounds, hp]

theorem InBounds.mark {h : History} (hb : h.InBounds) (nextMove : NextMove) :
    (h.mark nextMove).InBounds := hb

theorem InBounds.setRecording {h : History} (hb : h.InBounds) (on : Bool) :
    (h.setRecording on).InBounds := hb

theorem InBounds.land {h : History} {current last : Nat} (hb : h.InBounds)
    (hc : current ≤ last) (hl : last < h.slots.length) : (h.land current last).2.InBounds := by
  unfold History.land
  split
  · intro p hp
    simp only [Option.some.injEq] at hp
    subst hp
    exact ⟨hc, hl⟩
  · exact hb

theorem InBounds.back {h : History} (hb : h.InBounds) : h.back.2.InBounds := by
  unfold History.back
  split
  · next current last hp =>
    have := hb _ hp
    exact hb.land (by simp_all; omega) this.2
  · exact hb

theorem InBounds.forward {h : History} (hb : h.InBounds) : h.forward.2.InBounds := by
  unfold History.forward
  split
  · next current last hp =>
    split
    · next hlt => exact hb.land hlt (hb _ hp).2
    · exact hb
  · exact hb

theorem InBounds.clear (h : History) : h.clear.InBounds := inBounds_new _

end History

end ScriptDesk
