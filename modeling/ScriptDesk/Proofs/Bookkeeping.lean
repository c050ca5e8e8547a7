import ScriptDesk.Proofs.Coverage
import ScriptDesk.Proofs.Passes

/-!
# ScriptDesk.Proofs.Bookkeeping

The documents and the place for passes keep the same books. Which pass is under way
is kept twice, by the place and by the document, and the two are changed at different
moments; what every document keeps agrees with its share of the place
(`Tracking.Agrees`), so what it says of a pass is true of the one pass there is. The
queue belongs to the place alone: nobody waits for a place that is free, since a tick
that frees it hands it on.
-/

namespace ScriptDesk.Editor

/-- Nobody waits for a place that is free. -/
def Attended (e : Editor) : Prop := e.flight.isBusy = false → e.flight.queue = []

theorem Asks.attended {e e' : Editor} {p : Option Snapshot} (h : Asks e e' p) (he : e.Attended) :
    e'.Attended := by
  intro hfree
  cases h with
  | waits hslot htask hqueue =>
    have hfree : e.flight.isBusy = false := by rwa [SingleFlight.isBusy, hslot] at hfree
    rcases hqueue with hsub | hbusy
    · simpa [he hfree] using hsub
    · simp [hfree] at hbusy
  | starts s mode hs _ hnoted hslot htask => simp [SingleFlight.isBusy, hslot] at hfree

theorem attended_finishPass {e : Editor} (he : e.Attended) (analyzer : Analyzer) :
    (e.finishPass analyzer).2.Attended := by
  unfold Attended
  rw [(e.finishPass_keeps analyzer).1, SingleFlight.isBusy_finishSlot]
  exact he

theorem attended_perform {e : Editor} (hs : e.Sound) (he : e.Attended) (c : Command) :
    (e.perform c).2.Attended := by
  cases c with
  | tick now =>
    -- Taking in a completion may leave a queue for the free place, but the next phase hands it on.
    obtain ⟨-, hqueued⟩ := e.takeInCompleted.2.asks_startQueued
    obtain ⟨⟨p, hdue⟩, -⟩ := asks_startDue (sound_startQueued hs).armed now
    exact hdue.attended hqueued
  | finishPass analyzer => exact attended_finishPass he analyzer
  | openDocument path text => exact (asks_perform hs (.openDocument path text)).attended he
  | act id action => exact (asks_perform hs (.act id action)).attended he

theorem attended_run (config : Config) (commands : List Command) :
    ((new config).run commands).Attended :=
  (holds_run (fun _ c hs he => attended_perform hs he c) (sound_new config) (fun _ => rfl)
    commands).2

/-- The documents and the place for passes say the same of the pass under way. -/
structure KeepsBooks (e : Editor) : Prop where
  /-- A document knows of a pass exactly if the pass in the place is on it, at that version. -/
  inFlight : ∀ s ∈ e.sessions, ∀ v,
    s.tracking.inFlight = some v ↔ ∃ mode, e.flight.inFlight? = some (s.id, v, mode)
  /-- The status tells of work only while a full pass on the document is in the place. -/
  working : ∀ s ∈ e.sessions, s.tracking.status = .working →
    ∃ v, e.flight.inFlight? = some (s.id, v, .full)
  /-- A pass is not on anything newer than the document, -/
  notNewer : ∀ s ∈ e.sessions, ∀ v, s.tracking.inFlight = some v → v ≤ s.tracking.version
  /-- and not on anything older than the analysis on record. -/
  notOlder : ∀ s ∈ e.sessions, ∀ v, s.tracking.inFlight = some v →
    ∀ a, s.tracking.applied = some a → a.version ≤ v
  queue : e.flight.queue ≠ [] → e.flight.isBusy = true

theorem keepsBooks_run (config : Config) (commands : List Command) :
    ((new config).run commands).KeepsBooks := by
  have hagrees : ∀ s ∈ ((new config).run commands).sessions, s.tracking.Agrees
      (((new config).run commands).flight.slot.seenBy s.id).stamp? :=
    fun s hs => (minded_run config commands hs).agrees
  have hpass : ∀ s ∈ ((new config).run commands).sessions, ∀ v, s.tracking.inFlight = some v →
      ∃ mode, (((new config).run commands).flight.slot.seenBy s.id).stamp? = some ⟨v, mode⟩ := by
    intro s hs v hv
    rw [(hagrees s hs).inFlight, Option.map_eq_some_iff] at hv
    obtain ⟨⟨v, mode⟩, hp, rfl⟩ := hv
    exact ⟨mode, hp⟩
  refine ⟨fun s hs v => ⟨fun hv => ?_, ?_⟩, ?_, ?_, ?_, fun hqueue => ?_⟩
  · obtain ⟨mode, hp⟩ := hpass s hs v hv
    exact ⟨mode, SingleFlight.inFlight?_eq_some_iff.2 hp⟩
  · rintro ⟨mode, hp⟩
    rw [(hagrees s hs).inFlight, SingleFlight.inFlight?_eq_some_iff.1 hp]
    rfl
  · intro s hs hworking
    obtain ⟨v, hp⟩ := (hagrees s hs).working hworking
    exact ⟨v, SingleFlight.inFlight?_eq_some_iff.2 hp⟩
  · intro s hs v hv
    obtain ⟨mode, hp⟩ := hpass s hs v hv
    exact Tracking.version_le_of_isOlder ((hagrees s hs).passOld _ hp)
  · intro s hs v hv a ha
    obtain ⟨mode, hp⟩ := hpass s hs v hv
    exact (hagrees s hs).inOrder a _ ha hp
  · cases hbusy : ((new config).run commands).flight.isBusy with
    | true => rfl
    | false => exact absurd (attended_run config commands hbusy) hqueue

/-- The documents and the place for passes agree in every state that the editor
reaches; and no pass ever starts on a version older than the analysis on record. -/
theorem books_agree (config : Config) (commands : List Command) :
    ((new config).run commands).KeepsBooks ∧
      ∀ c p, ((new config).run commands).starts? c = some p →
        ∃ s ∈ (((new config).run commands).perform c).2.sessions, p = s.snapshot p.mode ∧
          ∀ a, s.tracking.applied = some a → a.version ≤ p.version := by
  refine ⟨keepsBooks_run config commands, fun c p hp => ?_⟩
  obtain ⟨s, hs, hnoted, heq⟩ := session_of_starts? (sound_run config commands) hp
  have hbooks := keepsBooks_run config (commands ++ [c])
  rw [run_append] at hbooks
  refine ⟨s, hs, heq, fun a ha => ?_⟩
  rw [heq]
  exact hbooks.notOlder s hs _ hnoted a ha

/-- Turning full analysis off while the first pass runs moves the document on, and
both go on to tell of that pass. -/
theorem books_agree_after_toggle :
    ∃ s ∈ ((new {}).run [.openDocument none "", .act ⟨1⟩ (.enable false)]).sessions,
      s.tracking.version = 1 ∧ s.tracking.status = .working ∧
        ∃ v, ((new {}).run [.openDocument none "", .act ⟨1⟩ (.enable false)]).flight.inFlight? =
          some (s.id, v, .full) :=
  ⟨_, List.mem_cons_self, rfl, rfl, (books_agree {} _).1.working _ List.mem_cons_self rfl⟩

end ScriptDesk.Editor
