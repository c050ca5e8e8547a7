import Mathlib.Data.List.Induction
import ScriptDesk.Navigation.Journey

/-!
# ScriptDesk.Proofs.Journey

A journey back and forth in a history changes nothing but the place (`History.travels_run`).
Each step moves the pointer by one slot or, at the bound, leaves it (`InBounds.take_cases`); an
echoed jump finds the mark that the jump itself has set, or recording turned off, and is left
out either way. A step that was possible can be taken back, so a way out that succeeds has its
way home (`InBounds.returns`).
-/

namespace ScriptDesk.History

variable {h : History} {d : Direction} {s : Step} {steps : List Step} {p : Pointers}

/-! ## One step -/

theorem take_of_eq_none (hgo : h.go s.direction = (none, h)) : h.take s = (none, h) := by
  simp only [take, hgo]

/-- Echoed or not, a jump moves the pointer and nothing else of the checkpoints. -/
theorem take_of_eq_some {target : Position}
    (hgo : h.go s.direction = (some target, h.landed p target)) :
    ∃ lastLine nextMove,
      h.take s = (some target, { h with pointers := some p, lastLine, nextMove }) := by
  cases hecho : s.echo with
  | none => exact ⟨_, _, by simp only [take, hgo, hecho]; rfl⟩
  | some position =>
    obtain ⟨nextMove, hrecord⟩ := record_landed h p target position
    exact ⟨_, nextMove, by simp only [take, hgo, hecho, hrecord]; rfl⟩

/-- A step is taken exactly if the pointer is not at the bound. -/
theorem InBounds.take_cases (hb : h.InBounds) (s : Step) :
    ((∀ p, h.pointers = some p → ¬ s.direction.CanGo p) ∧ h.take s = (none, h)) ∨
      ∃ p target lastLine nextMove, h.pointers = some p ∧ s.direction.CanGo p ∧
        h.slots[(s.direction.move p).current]? = some target ∧
        h.take s =
          (some target, { h with pointers := some (s.direction.move p), lastLine, nextMove }) := by
  cases hp : h.pointers with
  | none => exact .inl ⟨nofun, take_of_eq_none (go_of_empty hp)⟩
  | some p =>
    by_cases hd : s.direction.CanGo p
    · obtain ⟨target, hat, hgo⟩ := hb.exists_go hp hd
      obtain ⟨lastLine, nextMove, htake⟩ := take_of_eq_some hgo
      exact .inr ⟨p, target, lastLine, nextMove, rfl, hd, hat, htake⟩
    · refine .inl ⟨fun p' hp' => ?_, take_of_eq_none (go_of_not_canGo hp hd)⟩
      obtain rfl : p = p' := Option.some.inj hp'
      exact hd

theorem InBounds.slots_take (hb : h.InBounds) (s : Step) : (h.take s).2.slots = h.slots := by
  obtain ⟨-, htake⟩ | ⟨p, target, lastLine, nextMove, -, -, -, htake⟩ := hb.take_cases s <;>
    rw [htake]

theorem InBounds.pointers_take (hb : h.InBounds) (s : Step) :
    (h.take s).2.pointers = h.pointers.map s.direction.move := by
  obtain ⟨hbound, htake⟩ | ⟨p, target, lastLine, nextMove, hp, -, -, htake⟩ := hb.take_cases s
  · rw [htake]
    cases hp : h.pointers with
    | none => rfl
    | some p => rw [Option.map_some, Direction.move_of_not_canGo (hb p hp).1 (hbound p hp)]
  · rw [htake, hp, Option.map_some]

theorem InBounds.take (hb : h.InBounds) (s : Step) : (h.take s).2.InBounds := by
  intro q hq
  rw [hb.pointers_take, Option.map_eq_some_iff] at hq
  obtain ⟨p, hp, rfl⟩ := hq
  rw [hb.slots_take]
  exact ⟨Direction.move_le (hb p hp).1, (hb p hp).2⟩

/-! ## A journey -/

theorem InBounds.travel (hb : h.InBounds) (steps : List Step) : (h.travel steps).InBounds := by
  induction steps generalizing h with
  | nil => exact hb
  | cons s rest ih => exact ih (hb.take s)

theorem InBounds.slots_travel (hb : h.InBounds) (steps : List Step) :
    (h.travel steps).slots = h.slots := by
  induction steps generalizing h with
  | nil => rfl
  | cons s rest ih => rw [travel_cons, ih (hb.take s), hb.slots_take]

/-- The pointers after some steps from `p`, each of them held between the first slot and the
last. -/
def movedBy (steps : List Step) (p : Pointers) : Pointers :=
  steps.foldl (fun p s => s.direction.move p) p

theorem InBounds.pointers_travel (hb : h.InBounds) (steps : List Step) :
    (h.travel steps).pointers = h.pointers.map (movedBy steps) := by
  induction steps generalizing h with
  | nil => exact Option.map_id'.symm
  | cons s rest ih =>
    rw [travel_cons, ih (hb.take s), hb.pointers_take, Option.map_map]
    rfl

theorem last_movedBy (steps : List Step) (p : Pointers) : (movedBy steps p).last = p.last := by
  induction steps generalizing p with
  | nil => rfl
  | cons s rest ih => exact ih (s.direction.move p)

theorem InBounds.checkpoints_travel (hb : h.InBounds) (steps : List Step) :
    (h.travel steps).checkpoints = h.checkpoints := by
  unfold checkpoints
  rw [hb.pointers_travel, hb.slots_travel]
  cases h.pointers with
  | none => rfl
  | some p =>
    dsimp only [Option.map_some]
    rw [last_movedBy]

/-! ## Out and home -/

/-- Every step leads somewhere. -/
def Succeeds (h : History) (steps : List Step) : Prop :=
  ∀ target ∈ h.targets steps, target.isSome = true

theorem succeeds_cons_iff :
    h.Succeeds (s :: steps) ↔ (h.take s).1.isSome = true ∧ (h.take s).2.Succeeds steps := by
  simp [Succeeds, targets]

theorem succeeds_append_iff {more : List Step} :
    h.Succeeds (steps ++ more) ↔ h.Succeeds steps ∧ (h.travel steps).Succeeds more := by
  simp [Succeeds, targets_append, or_imp, forall_and]

theorem InBounds.isSome_take_iff (hb : h.InBounds) (s : Step) :
    (h.take s).1.isSome = true ↔ ∃ p, h.pointers = some p ∧ s.direction.CanGo p := by
  obtain ⟨hbound, htake⟩ | ⟨p, target, lastLine, nextMove, hp, hd, -, htake⟩ := hb.take_cases s
  · simpa [htake] using hbound
  · simp [htake, hp, hd]

/-- From where a step has led, a step in the opposite direction leads back. -/
theorem InBounds.returns_step {g : History} {back : Step} (hb : h.InBounds) (hg : g.InBounds)
    (hs : (h.take s).1.isSome = true) (hsame : g.pointers = (h.take s).2.pointers)
    (hback : back.direction = s.direction.opposite) :
    (g.take back).1.isSome = true ∧ (g.take back).2.pointers = h.pointers := by
  obtain ⟨p, hp, hd⟩ := (hb.isSome_take_iff s).1 hs
  have hle := (hb p hp).1
  have hmoved : g.pointers = some (s.direction.move p) := by
    rw [hsame, hb.pointers_take, hp, Option.map_some]
  constructor
  · rw [hg.isSome_take_iff, hback]
    exact ⟨_, hmoved, Direction.canGo_opposite hle hd⟩
  · rw [hg.pointers_take, hmoved, hback, hp, Option.map_some, Direction.move_opposite hle hd]

/-- As many steps in the opposite direction lead home. -/
theorem InBounds.returns (hb : h.InBounds) {out home : List Step}
    (hout : ∀ s ∈ out, s.direction = d) (hhome : ∀ s ∈ home, s.direction = d.opposite)
    (hlength : home.length = out.length) (hs : h.Succeeds out) :
    (h.travel out).Succeeds home ∧ ((h.travel out).travel home).pointers = h.pointers := by
  induction out generalizing h home with
  | nil =>
    obtain rfl : home = [] := List.length_eq_zero_iff.1 hlength
    exact ⟨nofun, rfl⟩
  | cons s out ih =>
    rcases List.eq_nil_or_concat home with rfl | ⟨home, back, rfl⟩
    · contradiction
    · rw [List.concat_eq_append] at hhome hlength ⊢
      obtain ⟨hfirst, hrest⟩ := succeeds_cons_iff.1 hs
      have hlength' : home.length = out.length := by simpa using hlength
      obtain ⟨hs', hp'⟩ := ih (hb.take s) (fun t ht => hout t (List.mem_cons_of_mem _ ht))
        (fun t ht => hhome t (List.mem_append_left _ ht)) hlength' hrest
      -- The first step out is what the last one home takes back.
      have hback : back.direction = s.direction.opposite := by
        rw [hout s (List.mem_cons_self ..)]
        exact hhome back (List.mem_append_right _ (List.mem_singleton_self back))
      have hg := ((hb.take s).travel out).travel home
      obtain ⟨hlast, hp⟩ := hb.returns_step hg hfirst hp' hback
      rw [travel_cons, succeeds_append_iff, travel_append]
      exact ⟨⟨hs', succeeds_cons_iff.2 ⟨hlast, nofun⟩⟩, hp⟩

/-! ## The whole journey -/

/-- A journey changes nothing but the place. -/
structure Travels (h : History) (steps : List Step) : Prop where
  checkpoints : (h.travel steps).checkpoints = h.checkpoints
  /-- The last slot stays, and the current one moves step by step. -/
  last : (h.travel steps).pointers.map (·.last) = h.pointers.map (·.last)
  pointers : (h.travel steps).pointers = h.pointers.map (movedBy steps)
  held : ∀ p, (h.travel steps).pointers = some p → p.current ≤ p.last
  /-- The current checkpoint is the one to which the pointer points. -/
  current? : ∀ p, (h.travel steps).pointers = some p →
    ∃ position, h.checkpoints[p.current]? = some position ∧
      (h.travel steps).current? = some position
  /-- The next step, like each before it, leads somewhere exactly off the bound, and then it
  leads to the checkpoint that is current after it. -/
  succeeds : ∀ s, ((h.travel steps).take s).1.isSome = true ↔
    ∃ p, (h.travel steps).pointers = some p ∧ s.direction.CanGo p
  target : ∀ s target, ((h.travel steps).take s).1 = some target →
    (h.travel (steps ++ [s])).current? = some target
  /-- Steps in one direction that succeed have their way home. -/
  returns : ∀ d home, (∀ s ∈ steps, s.direction = d) → (∀ s ∈ home, s.direction = d.opposite) →
    home.length = steps.length → h.Succeeds steps →
      (h.travel steps).Succeeds home ∧ ((h.travel steps).travel home).current? = h.current?

theorem InBounds.exists_current? (hb : h.InBounds) (hp : h.pointers = some p) :
    ∃ position, h.checkpoints[p.current]? = some position ∧ h.current? = some position := by
  obtain ⟨hle, hlast⟩ := hb p hp
  obtain ⟨position, hat⟩ : ∃ position, h.slots[p.current]? = some position :=
    ⟨_, List.getElem?_eq_getElem (Nat.lt_of_le_of_lt hle hlast)⟩
  refine ⟨position, ?_, ?_⟩
  · unfold checkpoints
    rw [hp]
    dsimp only
    rw [List.getElem?_take_of_lt (Nat.lt_succ_of_le hle), hat]
  · rw [History.current?, hp, Option.bind_some, hat]

theorem InBounds.current?_take (hb : h.InBounds) {target : Position}
    (hs : (h.take s).1 = some target) : (h.take s).2.current? = some target := by
  obtain ⟨-, htake⟩ | ⟨p, position, lastLine, nextMove, -, -, hat, htake⟩ := hb.take_cases s
  · rw [htake] at hs
    contradiction
  · rw [htake] at hs ⊢
    obtain rfl : position = target := Option.some.inj hs
    exact hat

/-- Whatever calls a history got before, a journey in it changes nothing but the place. -/
theorem travels_run (radius : Nat) (calls : List Call) (steps : List Step) :
    Travels (run { radius } calls) steps := by
  have hb := (inBounds_new radius).run calls
  have ht := hb.travel steps
  exact {
    checkpoints := hb.checkpoints_travel steps
    last := by
      rw [hb.pointers_travel, Option.map_map]
      exact Option.map_congr fun p _ => last_movedBy steps p
    pointers := hb.pointers_travel steps
    held := fun p hp => (ht p hp).1
    current? := fun p hp => hb.checkpoints_travel steps ▸ ht.exists_current? hp
    succeeds := ht.isSome_take_iff
    target := fun s target hs => by
      rw [travel_append]
      exact ht.current?_take hs
    returns := fun d home hout hhome hlength hs => by
      obtain ⟨hs', hp⟩ := hb.returns hout hhome hlength hs
      refine ⟨hs', ?_⟩
      unfold History.current?
      rw [hp, ht.slots_travel home, hb.slots_travel steps] }

/-- The bound in the middle stops one step, and no echo is recorded. -/
example :
    targets (run { radius := 1 } [.record ⟨5, 0⟩, .record ⟨40, 0⟩, .mark .override])
      [⟨.back, some ⟨7, 0⟩⟩, ⟨.back, none⟩, ⟨.forward, some ⟨90, 0⟩⟩] =
    [some ⟨5, 0⟩, none, some ⟨40, 0⟩] := by
  decide

end ScriptDesk.History
