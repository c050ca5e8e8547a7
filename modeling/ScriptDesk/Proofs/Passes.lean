import ScriptDesk.Proofs.Rest

/-!
# ScriptDesk.Proofs.Passes

The passes of a run: which command starts one, and which takes in the completion
of one. A command first clears the place for passes as far as it can: it may let
the running pass end, or take in its completion. After that it asks for at most
one pass (`Editor.Asks`), and whether it started one can be read off the number
that the next pass will get. All that is said about the passes of a run rests on
these two steps.
-/

namespace ScriptDesk

/-- The snapshot that the running pass works on. -/
def Slot.snapshot? : Slot → Option Snapshot
  | .running _ s => some s
  | .free | .finished _ => none

/-- The document, version and mode that a pass is started on. -/
def Snapshot.subject (s : Snapshot) : DocumentId × Nat × Mode := (s.document, s.version, s.mode)

/-- The document, version and mode that a pass was on. -/
def Completion.subject (c : Completion) : DocumentId × Nat × Mode := (c.document, c.version, c.mode)

def Response.report? : Response → Option TickReport
  | .ticked report => some report
  | _ => none

namespace Editor

/-! ## What is observed in a run -/

/-- What is observed of the commands of a run, oldest first. -/
def trace {α : Type} (observe : Editor → Command → List α) (e : Editor) : List Command → List α
  | [] => []
  | c :: rest => observe e c ++ trace observe (e.perform c).2 rest

/-- What is observed in a run is observed of one of its commands, in the state that
the commands before it lead to. -/
theorem exists_of_mem_trace {α : Type} {observe : Editor → Command → List α} {e : Editor}
    {commands : List Command} {a : α} (h : a ∈ trace observe e commands) :
    ∃ before c after, commands = before ++ c :: after ∧ a ∈ observe (e.run before) c := by
  induction commands generalizing e with
  | nil => simp [trace] at h
  | cons c rest ih =>
    rcases List.mem_append.1 h with h | h
    · exact ⟨[], c, rest, rfl, h⟩
    · obtain ⟨before, d, after, rfl, hd⟩ := ih h
      exact ⟨c :: before, d, after, rfl, hd⟩

/-- The pass that a command starts. Each pass is given the next number, so one was
started exactly if that number has changed; and as no command ends a pass that it
starts, the pass is running afterwards. -/
def starts? (e : Editor) (c : Command) : Option Snapshot :=
  if (e.perform c).2.flight.nextTask = e.flight.nextTask then none
  else (e.perform c).2.flight.slot.snapshot?

/-- The completion that a command takes in. -/
def takesIn? (e : Editor) : Command → Option Completion
  | .tick _ => e.flight.collect.1
  | .openDocument _ _ | .act _ _ | .finishPass _ => none

/-- The passes that a run starts. -/
def started (e : Editor) : List Command → List Snapshot :=
  trace (fun e c => (e.starts? c).toList) e

/-- The completions that a run takes in. -/
def completed (e : Editor) : List Command → List Completion :=
  trace (fun e c => (e.takesIn? c).toList) e

/-- The reports of the ticks of a run. -/
def reports (e : Editor) : List Command → List TickReport :=
  trace (fun e c => (e.perform c).1.report?.toList) e

/-! ## Asking for a pass -/

/-- What becomes of the place for passes when it is asked for at most one pass. -/
inductive Asks (e e' : Editor) : Option Snapshot → Prop where
  /-- No pass starts, and the queue grows only while the place is taken. -/
  | waits (hslot : e'.flight.slot = e.flight.slot) (htask : e'.flight.nextTask = e.flight.nextTask)
      (hqueue : e'.flight.queue.Sublist e.flight.queue ∨ e.flight.isBusy = true) : Asks e e' none
  /-- A pass starts on an open document as the document is then. -/
  | starts (s : Session) (mode : Mode) (hs : s ∈ e'.sessions) (hfree : e.flight.isBusy = false)
      (hnoted : s.tracking.inFlight = some s.tracking.version)
      (hslot : e'.flight.slot = .running e.flight.nextTask (s.snapshot mode))
      (htask : e'.flight.nextTask = e.flight.nextTask + 1) : Asks e e' (some (s.snapshot mode))

theorem Asks.of_flight_eq {e e' : Editor} (h : e'.flight = e.flight) : Asks e e' none :=
  .waits (by rw [h]) (by rw [h]) (.inl (by rw [h]))

/-- A change of the deadlines and of the documents, or fewer queued documents, make no
difference. -/
theorem Asks.of_sublist {e e₁ e' : Editor} {p : Option Snapshot} (h : Asks e₁ e' p)
    (hslot : e₁.flight.slot = e.flight.slot) (htask : e₁.flight.nextTask = e.flight.nextTask)
    (hqueue : e₁.flight.queue.Sublist e.flight.queue) : Asks e e' p := by
  have hbusy : e₁.flight.isBusy = e.flight.isBusy := by simp only [SingleFlight.isBusy, hslot]
  cases h with
  | waits hslot' htask' hqueue' =>
    refine .waits (hslot'.trans hslot) (htask'.trans htask) ?_
    exact hqueue'.imp (·.trans hqueue) (hbusy ▸ ·)
  | starts s mode hs hfree hnoted hslot' htask' =>
    exact .starts s mode hs (hbusy ▸ hfree) hnoted (htask ▸ hslot') (htask ▸ htask')

theorem mem_setSession_self {e : Editor} {s : Session} (h : s.id ∈ e.ids) :
    s ∈ (e.setSession s).sessions := by
  obtain ⟨old, hold, hid⟩ := List.mem_map.1 h
  exact List.mem_map.2 ⟨old, hold, if_pos hid⟩

theorem asks_start {e : Editor} {s : Session} (hs : s.id ∈ e.ids) (mode : Mode) :
    ∃ p, Asks e (e.start s mode).2 p := by
  cases hb : e.flight.isBusy with
  | true =>
    rw [start_of_busy hb]
    exact ⟨none, .waits rfl rfl (.inr hb)⟩
  | false =>
    let noted : Session := { s with tracking := s.tracking.noteStart mode }
    have hflight := flight_start_of_free hb s mode
    have hmem : noted ∈ (e.start s mode).2.sessions := by
      rw [(lane_start_of_free hb s mode).1]
      exact mem_setSession_self hs
    exact ⟨_, .starts noted mode hmem hb rfl (by rw [hflight]; rfl) (by rw [hflight]; rfl)⟩

/-- Whether a pass starts or waits, the place is taken afterwards. -/
theorem isBusy_start (e : Editor) (s : Session) (mode : Mode) :
    (e.start s mode).2.flight.isBusy = true := by
  cases hb : e.flight.isBusy with
  | true => rw [start_of_busy hb]; exact hb
  | false => rw [flight_start_of_free hb]; rfl

/-! ### Commands to a document -/

theorem flight_publishStatus (e : Editor) (s : Session) :
    (e.publishStatus s).flight = e.flight := by
  obtain ⟨outbox, h⟩ := e.publishStatus_eq s
  rw [h]

theorem asks_force {e : Editor} {s : Session} (hs : s.id ∈ e.ids) : ∃ p, Asks e (e.force s) p := by
  let dirty : Session := { s with tracking := s.tracking.invalidate }
  let e₁ : Editor := { e.setSession dirty with debouncer := e.debouncer.cancel s.id }
  have hids : e₁.ids = e.ids := ids_setSession e dirty
  obtain ⟨p, h⟩ := asks_start (e := e₁) (s := dirty) (hids ▸ hs) dirty.tracking.mode
  exact ⟨p, h.of_sublist rfl rfl (List.Sublist.refl _)⟩

theorem asks_enable {e : Editor} {s : Session} (hs : s.id ∈ e.ids) (on : Bool) :
    ∃ p, Asks e (e.enable s on) p := by
  unfold enable
  split
  · exact ⟨none, .of_flight_eq rfl⟩
  · let switched : Session := { s with tracking := s.tracking.setEnabled on }
    have hids := ids_setSession e switched
    obtain ⟨p, h⟩ := asks_force (e := e.setSession switched) (s := switched) (hids ▸ hs)
    exact ⟨p, h.of_sublist rfl rfl (List.Sublist.refl _)⟩

theorem asks_act {e : Editor} {s : Session} (hs : s.id ∈ e.ids) (action : Action) :
    ∃ p, Asks e (e.act s action).2 p := by
  cases action with
  | close => exact ⟨none, .waits rfl rfl (.inl List.filter_sublist)⟩
  | activate =>
    refine ⟨none, .of_flight_eq ?_⟩
    unfold act activate
    dsimp only
    split <;> rfl
  | edit now edits =>
    refine ⟨none, .of_flight_eq ?_⟩
    unfold act edit
    dsimp only
    split
    · rfl
    · exact flight_publishStatus _ _
  | force => exact asks_force hs
  | enable on => exact asks_enable hs on
  | moveCaret position =>
    refine ⟨none, .of_flight_eq ?_⟩
    unfold act moveCaret
    dsimp only
    split <;> rfl
  | goBack => refine ⟨none, .of_flight_eq ?_⟩; unfold act replay; dsimp only; split <;> rfl
  | goForward => refine ⟨none, .of_flight_eq ?_⟩; unfold act replay; dsimp only; split <;> rfl
  | saved now => exact ⟨none, .of_flight_eq rfl⟩
  | structural now => exact ⟨none, .of_flight_eq rfl⟩
  | markNext nextMove => exact ⟨none, .of_flight_eq rfl⟩
  | setRecording on => exact ⟨none, .of_flight_eq rfl⟩

theorem asks_openDocument (e : Editor) (path : Option String) (text : String) :
    ∃ p, Asks e (e.openDocument path text).2 p := by
  have hids : (e.next path text).id ∈ (e.withNext path text).ids :=
    mem_ids (List.mem_append_right _ (List.mem_singleton.2 rfl))
  obtain ⟨p, h⟩ := asks_start hids (e.next path text).tracking.mode
  exact ⟨p, h.of_sublist rfl rfl (List.Sublist.refl _)⟩

/-! ### Ticks -/

/-- The second phase of a tick leaves the queue empty unless the place is taken. -/
theorem asks_startQueued (e : Editor) :
    (∃ p, Asks e e.startQueued.2 p) ∧
      (e.startQueued.2.flight.isBusy = false → e.startQueued.2.flight.queue = []) := by
  rcases e.startQueued_cases with
    ⟨hbusy, heq⟩ | ⟨-, -, heq⟩ | ⟨closed, q, rest, s, hfree, hqueue, -, hs, -, heq⟩ <;> rw [heq]
  · exact ⟨⟨none, .of_flight_eq rfl⟩, fun h => by simp [hbusy] at h⟩
  · exact ⟨⟨none, .waits rfl rfl (.inl (List.nil_sublist _))⟩, fun _ => rfl⟩
  · have hs : s.id ∈ (e.withQueue rest).ids := mem_ids hs
    have hsub : rest.Sublist e.flight.queue := by rw [hqueue]; simp
    obtain ⟨p, h⟩ := asks_start hs (if s.tracking.enabled then q.mode else .minimal)
    exact ⟨⟨p, h.of_sublist rfl rfl hsub⟩, fun hbusy => by simp [isBusy_start] at hbusy⟩

/-- The third phase of a tick does nothing to a place that is taken. -/
theorem asks_startDue {e : Editor} (he : e.debouncer.Sound) (now : Time) :
    (∃ p, Asks e (e.startDue now).2.2 p) ∧ (e.flight.isBusy = true →
      (e.startDue now).2.2.flight = e.flight ∧ (e.startDue now).2.2.sessions = e.sessions) := by
  rcases startDue_cases he now with ⟨-, heq⟩ | ⟨s, deadline, mode, hfree, hs, -, heq⟩ <;> rw [heq]
  · exact ⟨⟨none, .of_flight_eq rfl⟩, fun _ => ⟨rfl, rfl⟩⟩
  · refine ⟨?_, fun hbusy => by simp [hbusy] at hfree⟩
    split
    · obtain ⟨p, h⟩ := asks_start (e := e.afterFiring s mode) (mem_ids hs) mode
      exact ⟨p, h.of_sublist rfl rfl (List.Sublist.refl _)⟩
    · exact ⟨none, .of_flight_eq rfl⟩

/-- After the completion was taken in, at most one of the other two phases of a tick
starts a pass. -/
theorem asks_tick {e : Editor} (he : e.Sound) (now : Time) :
    ∃ p, Asks e.takeInCompleted.2 (e.tick now).2 p := by
  obtain ⟨⟨p, hqueued⟩, -⟩ := e.takeInCompleted.2.asks_startQueued
  obtain ⟨⟨q, hdue⟩, hkept⟩ := asks_startDue (sound_startQueued he).armed now
  rw [tick_snd]
  cases hqueued with
  | waits hslot htask hqueue =>
    rcases hqueue with hsub | hbusy
    · exact ⟨q, hdue.of_sublist hslot htask hsub⟩
    · obtain ⟨hflight, -⟩ := hkept (by rwa [SingleFlight.isBusy, hslot])
      exact ⟨none, .waits (by rw [hflight, hslot]) (by rw [hflight, htask]) (.inr hbusy)⟩
  | starts s mode hs hfree hnoted hslot htask =>
    obtain ⟨hflight, hsessions⟩ := hkept (by rw [SingleFlight.isBusy, hslot])
    exact ⟨_, .starts s mode (hsessions ▸ hs) hfree hnoted (by rw [hflight, hslot])
      (by rw [hflight, htask])⟩

/-! ### All commands -/

/-- The editor when a command comes to ask for a pass: the running pass may have
ended by then, or its completion may have been taken in. -/
def cleared (e : Editor) : Command → Editor
  | .finishPass analyzer => (e.finishPass analyzer).2
  | .tick _ => e.takeInCompleted.2
  | .openDocument _ _ | .act _ _ => e

theorem flight_takeInCompleted (e : Editor) :
    e.takeInCompleted.2.flight = e.flight.collect.2 := by
  rcases e.takeInCompleted_forms with ⟨done, hdone, heq⟩ | ⟨hnot, heq⟩ <;> rw [heq]
  · rw [(e.freed.takeIn_keeps done).1, SingleFlight.collect_of_finished hdone]
    rfl
  · rw [SingleFlight.collect_of_not_finished hnot]

theorem flight_cleared (e : Editor) (c : Command) :
    (e.cleared c).flight = match c with
      | .finishPass analyzer =>
        { e.flight with slot := SingleFlight.finishSlot analyzer e.flight.slot }
      | .tick _ => e.flight.collect.2
      | .openDocument _ _ | .act _ _ => e.flight := by
  cases c with
  | finishPass analyzer => exact (e.finishPass_keeps analyzer).1
  | tick now => exact e.flight_takeInCompleted
  | openDocument path text => rfl
  | act id action => rfl

theorem nextTask_cleared (e : Editor) (c : Command) :
    (e.cleared c).flight.nextTask = e.flight.nextTask := by
  rw [flight_cleared]
  cases c with
  | tick now =>
    unfold SingleFlight.collect
    cases e.flight.slot <;> rfl
  | _ => rfl

/-- What a command starts is what can be read off afterwards. -/
theorem Asks.eq_starts? {e : Editor} {c : Command} {p : Option Snapshot}
    (h : Asks (e.cleared c) (e.perform c).2 p) : p = e.starts? c := by
  unfold starts?
  cases h with
  | waits hslot htask hqueue => rw [htask, nextTask_cleared, if_pos rfl]
  | starts s mode hs hfree hnoted hslot htask =>
    rw [htask, nextTask_cleared, if_neg (by simp), hslot]
    rfl

/-- A command asks for at most one pass. -/
theorem asks_perform {e : Editor} (he : e.Sound) (c : Command) :
    Asks (e.cleared c) (e.perform c).2 (e.starts? c) := by
  have h : ∃ p, Asks (e.cleared c) (e.perform c).2 p := by
    cases c with
    | openDocument path text => exact asks_openDocument e path text
    | finishPass analyzer => exact ⟨none, .of_flight_eq rfl⟩
    | tick now => exact asks_tick he now
    | act id action =>
      unfold perform
      dsimp only
      split
      · next s hs => exact asks_act (mem_ids (mem_of_session?_eq_some hs).1) action
      · exact ⟨none, .of_flight_eq rfl⟩
  obtain ⟨p, h⟩ := h
  exact h.eq_starts? ▸ h

/-- A pass starts on an open document, which notes its version. Nothing that the pass
reads of the document changes before the command ends. -/
theorem session_of_starts? {e : Editor} (he : e.Sound) {c : Command} {p : Snapshot}
    (h : e.starts? c = some p) :
    ∃ s ∈ (e.perform c).2.sessions, s.tracking.inFlight = some s.tracking.version ∧
      p = s.snapshot p.mode := by
  have hasks := asks_perform he c
  rw [h] at hasks
  cases hasks with
  | starts s mode hs hfree hnoted hslot htask => exact ⟨s, hs, hnoted, rfl⟩

end Editor

end ScriptDesk
