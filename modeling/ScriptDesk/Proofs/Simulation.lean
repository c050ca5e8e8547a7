import Mathlib.Logic.Relation
import ScriptDesk.Proofs.Lane

/-!
# ScriptDesk.Proofs.Simulation

What is done to one document moves its lane by a step of `Lane.Act`, and leaves
the lanes of all others as they are; only showing a document also hides the one
that was shown. `Editor.Evolves` says this of two states of the editor, and each
command is shown to lead from one state to another in this way.
-/

namespace ScriptDesk.Editor

open Relation (ReflTransGen)

/-- The open documents. -/
def ids (e : Editor) : List DocumentId := e.sessions.map (·.id)

theorem mem_ids {e : Editor} {s : Session} (h : s ∈ e.sessions) : s.id ∈ e.ids :=
  List.mem_map_of_mem h

theorem mem_of_session?_eq_some {e : Editor} {s : Session} {id : DocumentId}
    (h : e.session? id = some s) : s ∈ e.sessions ∧ s.id = id := by
  refine ⟨List.mem_of_find?_eq_some h, ?_⟩
  simpa using List.find?_some h

theorem session?_eq_none_iff {e : Editor} {id : DocumentId} :
    e.session? id = none ↔ id ∉ e.ids := by
  simp [session?, ids]

theorem isOpen_eq_false_iff {e : Editor} {id : DocumentId} : e.isOpen id = false ↔ id ∉ e.ids := by
  rw [isOpen, Option.isSome_eq_false_iff, Option.isNone_iff_eq_none, session?_eq_none_iff]

theorem isOpen_iff {e : Editor} {id : DocumentId} : e.isOpen id = true ↔ id ∈ e.ids := by
  rw [← Bool.not_eq_false, isOpen_eq_false_iff, Decidable.not_not]

theorem ids_setSession (e : Editor) (s : Session) : (e.setSession s).ids = e.ids := by
  unfold ids setSession
  rw [List.map_map]
  refine List.map_congr_left fun old _ => ?_
  by_cases h : old.id = s.id <;> simp [h]

theorem mem_setSession {e : Editor} {s t : Session} (h : t ∈ (e.setSession s).sessions) :
    t = s ∨ t ∈ e.sessions ∧ t.id ≠ s.id := by
  obtain ⟨old, hold, rfl⟩ := List.mem_map.1 h
  by_cases hid : old.id = s.id
  · exact .inl (if_pos hid)
  · rw [if_neg hid]
    exact .inr ⟨hold, hid⟩

theorem setSession_setSession {e : Editor} {s t : Session} (h : s.id = t.id) :
    ((e.setSession s).setSession t).sessions = (e.setSession t).sessions := by
  unfold setSession
  rw [List.map_map]
  refine List.map_congr_left fun old _ => ?_
  by_cases hid : old.id = t.id <;> simp [h, hid]

/-! ## Lanes after the changes that commands are made of -/

theorem told_emit (e : Editor) (event : Event) (id : DocumentId) :
    (e.emit event).told id = e.told id ++ if event.document = id then [event] else [] := by
  unfold told emit
  rw [List.filter_append]
  by_cases h : event.document = id <;> simp [h]

theorem share_emit_of_ne {e : Editor} {event : Event} {id : DocumentId} (h : id ≠ event.document) :
    (e.emit event).share id = e.share id := by
  simp only [share, told_emit, if_neg h.symm, List.append_nil]
  rfl

theorem lane_emit {e : Editor} {event : Event} {s : Session} (h : event.document = s.id) :
    (e.emit event).lane s = (e.lane s).tell event := by
  simp only [lane, share, told_emit, if_pos h]
  rfl

/-- Tells the analysis that went on record while the document was hidden. -/
def tellMissed (e : Editor) (s : Session) : Editor :=
  match s.tracking.viewsStale, s.tracking.analysis with
  | true, some analysis => e.emit (.analysisApplied s.id analysis)
  | _, _ => e

theorem share_tellMissed_of_ne {e : Editor} {s : Session} {id : DocumentId} (h : id ≠ s.id) :
    (e.tellMissed s).share id = e.share id := by
  unfold tellMissed
  split
  · exact share_emit_of_ne h
  · rfl

theorem lane_tellMissed {e : Editor} {s t : Session} (h : s.id = t.id) :
    (e.tellMissed s).lane t = (e.lane t).tellMissed s := by
  unfold tellMissed Lane.tellMissed
  cases s.tracking.viewsStale with
  | false => rfl
  | true =>
    cases s.tracking.analysis with
    | none => rfl
    | some analysis => exact lane_emit h

theorem share_publishStatus_of_ne {e : Editor} {s : Session} {id : DocumentId} (h : id ≠ s.id) :
    (e.publishStatus s).share id = e.share id := by
  unfold publishStatus
  split
  · exact share_emit_of_ne h
  · rfl

theorem lane_publishStatus (e : Editor) (s : Session) :
    (e.publishStatus s).lane s = (e.lane s).publishStatus := by
  unfold publishStatus Lane.publishStatus
  have hs : (e.lane s).shown = e.isShown s.id := rfl
  rw [hs]
  split
  · exact lane_emit rfl
  · rfl

theorem share_arm_of_ne {e : Editor} {s : Session} {id : DocumentId} (now : Time)
    (trigger : Trigger) (h : id ≠ s.id) : (e.arm s now trigger).share id = e.share id := by
  simp only [share, arm, Debouncer.deadlines_trigger, if_neg h]
  rfl

theorem lane_arm (e : Editor) (s : Session) (now : Time) (trigger : Trigger) :
    (e.arm s now trigger).lane s =
      { e.lane s with
        deadlines := .after now (e.debouncer.policy.arm trigger s.tracking.enabled) } := by
  simp only [lane, share, arm, Debouncer.deadlines_trigger, if_pos]
  rfl

theorem start_of_busy {e : Editor} (h : e.flight.isBusy = true) (s : Session) (mode : Mode) :
    e.start s mode = (false, { e with flight := e.flight.enqueue s.id mode }) := by
  unfold start
  rw [SingleFlight.request_of_busy h]
  rfl

theorem start_of_free {e : Editor} (h : e.flight.isBusy = false) (s : Session) (mode : Mode) :
    e.start s mode =
      (true,
        let noted := { s with tracking := s.tracking.noteStart mode }
        let launched := { e with flight := e.flight.launch (s.snapshot mode) }.setSession noted
        if noted.tracking.status = s.tracking.status then launched
        else launched.publishStatus noted) := by
  unfold start
  rw [SingleFlight.request_of_free h]

theorem flight_start_of_free {e : Editor} (h : e.flight.isBusy = false) (s : Session)
    (mode : Mode) : (e.start s mode).2.flight = e.flight.launch (s.snapshot mode) := by
  rw [start_of_free h]
  unfold publishStatus
  dsimp only
  split
  · rfl
  · split <;> rfl

theorem share_start_of_ne {e : Editor} {s : Session} {id : DocumentId} (mode : Mode)
    (h : id ≠ s.id) : (e.start s mode).2.share id = e.share id := by
  cases hb : e.flight.isBusy with
  | true =>
    rw [start_of_busy hb]
    simp only [share, SingleFlight.waiting_enqueue_of_ne _ _ h]
    rfl
  | false =>
    rw [start_of_free hb]
    have hl : ({ e with flight := e.flight.launch (s.snapshot mode) } : Editor).share id =
        e.share id := by
      have hseen : (e.flight.launch (s.snapshot mode)).slot.seenBy id =
          e.flight.slot.seenBy id := by
        rw [SingleFlight.isBusy_eq_false_iff.1 hb, Slot.seenBy_free]
        exact Slot.seenBy_of_ne rfl h
      simp only [share, hseen, SingleFlight.waiting_launch_of_ne _ (s.snapshot mode) h]
      rfl
    dsimp only
    split
    · exact hl
    · rw [share_publishStatus_of_ne (s := { s with tracking := s.tracking.noteStart mode }) h]
      exact hl

theorem lane_start_of_busy {e : Editor} (hb : e.flight.isBusy = true) (s : Session) (mode : Mode) :
    (e.start s mode).2.sessions = e.sessions ∧ (e.start s mode).2.lane s =
      { e.lane s with waiting := requeue (e.lane s).waiting mode } := by
  rw [start_of_busy hb]
  refine ⟨rfl, ?_⟩
  simp only [lane, share, SingleFlight.waiting_enqueue_self]
  rfl

theorem slot_lane_of_free {e : Editor} (hb : e.flight.isBusy = false) (s : Session) :
    (e.lane s).slot = .free := by
  simp [lane, share, SingleFlight.isBusy_eq_false_iff.1 hb]

theorem lane_start_of_free {e : Editor} (hb : e.flight.isBusy = false) (s : Session) (mode : Mode) :
    (e.start s mode).2.sessions =
        (e.setSession { s with tracking := s.tracking.noteStart mode }).sessions ∧
      (e.start s mode).2.lane { s with tracking := s.tracking.noteStart mode } =
        (e.lane s).launch e.flight.nextTask mode := by
  let noted : Session := { s with tracking := s.tracking.noteStart mode }
  have hl : ({ e with flight := e.flight.launch (s.snapshot mode) } : Editor).lane noted =
      { (e.lane s).setTracking noted.tracking with
        waiting := (e.lane s).waiting.filter (!mode.covers ·)
        slot := .running e.flight.nextTask (s.snapshot mode) } := by
    have hw := e.flight.waiting_launch_self (s.snapshot mode)
    have hseen : (e.flight.launch (s.snapshot mode)).slot.seenBy noted.id =
        .running e.flight.nextTask (s.snapshot mode) := Slot.seenBy_of_document? rfl
    simp only [Session.document_snapshot, Session.mode_snapshot] at hw
    simp only [lane, share, hseen, noted, hw]
    rfl
  rw [start_of_free hb]
  unfold Lane.launch
  dsimp only
  have hs : (e.lane s).session = s := rfl
  rw [hs]
  split
  · exact ⟨rfl, hl⟩
  · refine ⟨sessions_publishStatus _ _, ?_⟩
    rw [lane_publishStatus]
    exact congrArg Lane.publishStatus hl

/-- Starting a pass is a request in the lane of its document. -/
theorem lane_start (e : Editor) (s : Session) (mode : Mode) :
    ∃ s', s'.id = s.id ∧ Lane.Requests mode (e.lane s) ((e.start s mode).2.lane s') ∧
      ((e.start s mode).2.sessions = (e.setSession s').sessions ∨
        s' = s ∧ (e.start s mode).2.sessions = e.sessions) := by
  cases hb : e.flight.isBusy with
  | true =>
    obtain ⟨hsess, hlane⟩ := lane_start_of_busy hb s mode
    exact ⟨s, rfl, hlane ▸ .queued, .inr ⟨rfl, hsess⟩⟩
  | false =>
    obtain ⟨hsess, hlane⟩ := lane_start_of_free hb s mode
    exact ⟨{ s with tracking := s.tracking.noteStart mode }, rfl,
      hlane ▸ .started _ (slot_lane_of_free hb s), .inl hsess⟩

theorem start_keeps (e : Editor) (s : Session) (mode : Mode) :
    (e.start s mode).2.config = e.config ∧ (e.start s mode).2.opened = e.opened ∧
      (e.start s mode).2.active = e.active ∧ (e.start s mode).2.debouncer = e.debouncer := by
  cases hb : e.flight.isBusy with
  | true => rw [start_of_busy hb]; exact ⟨rfl, rfl, rfl, rfl⟩
  | false =>
    rw [start_of_free hb]
    unfold publishStatus
    dsimp only
    split
    · exact ⟨rfl, rfl, rfl, rfl⟩
    · split <;> exact ⟨rfl, rfl, rfl, rfl⟩

/-! ## Evolution -/

/-- What changes of documents leave alone: the settings and the number of documents
that were opened; and the table of deadlines stays in order. -/
structure Frame (e e' : Editor) : Prop where
  config : e'.config = e.config
  opened : e'.opened = e.opened
  policy : e'.debouncer.policy = e.debouncer.policy
  armed : e.debouncer.Sound → e'.debouncer.Sound

namespace Frame

variable {e e' e'' : Editor}

theorem of_eq (hconfig : e'.config = e.config) (hopened : e'.opened = e.opened)
    (hdeb : e'.debouncer = e.debouncer) : Frame e e' :=
  ⟨hconfig, hopened, by rw [hdeb], fun h => hdeb ▸ h⟩

theorem trans (h : Frame e e') (h' : Frame e' e'') : Frame e e'' where
  config := h'.config.trans h.config
  opened := h'.opened.trans h.opened
  policy := h'.policy.trans h.policy
  armed hs := h'.armed (h.armed hs)

theorem setSession (e : Editor) (s : Session) : Frame e (e.setSession s) := .of_eq rfl rfl rfl

theorem arm (h : Frame e e') (s : Session) (now : Time) (trigger : Trigger) :
    Frame e (e'.arm s now trigger) :=
  ⟨h.config, h.opened, (Debouncer.policy_set _ _ _).trans h.policy,
    fun hs => (h.armed hs).trigger _ _ _ _⟩

theorem start (h : Frame e e') (s : Session) (mode : Mode) : Frame e (e'.start s mode).2 := by
  obtain ⟨hconfig, hopened, -, hdeb⟩ := start_keeps e' s mode
  exact h.trans (.of_eq hconfig hopened hdeb)

end Frame

/-- The editor goes from one state to another without opening a document, and the
lane of each document that stays open takes steps of `R`. -/
structure Evolves (R : Lane → Lane → Prop) (e e' : Editor) : Prop where
  ids : e'.ids.Sublist e.ids
  config : e'.config = e.config
  opened : e'.opened = e.opened
  policy : e'.debouncer.policy = e.debouncer.policy
  armed : e.debouncer.Sound → e'.debouncer.Sound
  /-- Nothing comes up about a document that is not open. -/
  blank : ∀ id ∉ e.ids, e.share id = {} → e'.share id = {}
  lanes : ∀ t ∈ e'.sessions, ∃ s ∈ e.sessions, s.id = t.id ∧
    ReflTransGen R (e.lane s) (e'.lane t)

namespace Evolves

variable {R S : Lane → Lane → Prop} {e e' e'' : Editor}

theorem refl (R : Lane → Lane → Prop) (e : Editor) : Evolves R e e :=
  ⟨List.Sublist.refl _, rfl, rfl, rfl, id, fun _ _ h => h, fun t ht => ⟨t, ht, rfl, .refl⟩⟩

theorem trans (h : Evolves R e e') (h' : Evolves R e' e'') : Evolves R e e'' where
  ids := h'.ids.trans h.ids
  config := h'.config.trans h.config
  opened := h'.opened.trans h.opened
  policy := h'.policy.trans h.policy
  armed hs := h'.armed (h.armed hs)
  blank id hid hb := h'.blank id (fun hm => hid (h.ids.subset hm)) (h.blank id hid hb)
  lanes t ht := by
    obtain ⟨s, hs, hst, hR⟩ := h'.lanes t ht
    obtain ⟨r, hr, hrs, hR'⟩ := h.lanes s hs
    exact ⟨r, hr, hrs.trans hst, hR'.trans hR⟩

theorem mono (h : Evolves R e e') (hRS : ∀ l l', R l l' → S l l') : Evolves S e e' :=
  { h with
    lanes := fun t ht => by
      obtain ⟨s, hs, hst, hR⟩ := h.lanes t ht
      exact ⟨s, hs, hst, ReflTransGen.mono hRS _ _ hR⟩ }

/-- A change of one document, by which the others take steps too. -/
theorem of_lanes {s : Session} (s' : Session) (hs : s ∈ e.sessions) (hid : s'.id = s.id)
    (hsess : e'.sessions = (e.setSession s').sessions) (hframe : Frame e e')
    (hblank : ∀ id ∉ e.ids, e.share id = {} → e'.share id = {})
    (hother : ∀ t ∈ e.sessions, t.id ≠ s.id → ReflTransGen R (e.lane t) (e'.lane t))
    (hlane : R (e.lane s) (e'.lane s')) : Evolves R e e' where
  ids := by
    have h : e'.ids = e.ids := by
      rw [← ids_setSession e s', Editor.ids, hsess]
      rfl
    exact h ▸ List.Sublist.refl _
  config := hframe.config
  opened := hframe.opened
  policy := hframe.policy
  armed := hframe.armed
  blank := hblank
  lanes t ht := by
    rw [hsess] at ht
    rcases mem_setSession ht with rfl | ⟨ht, hne⟩
    · exact ⟨s, hs, hid.symm, .single hlane⟩
    · exact ⟨t, ht, rfl, hother t ht (hid ▸ hne)⟩

/-- A change of one document and of its share alone. -/
theorem of_session {s : Session} (s' : Session) (hs : s ∈ e.sessions) (hid : s'.id = s.id)
    (hsess : e'.sessions = (e.setSession s').sessions) (hactive : e'.active = e.active)
    (hframe : Frame e e') (hshare : ∀ id, id ≠ s.id → e'.share id = e.share id)
    (hlane : R (e.lane s) (e'.lane s')) : Evolves R e e' := by
  refine of_lanes s' hs hid hsess hframe ?_ ?_ hlane
  · intro id hm hb
    rw [hshare id fun h => hm (h ▸ mem_ids hs), hb]
  · intro t _ hne
    have hl : e'.lane t = e.lane t := by
      simp only [lane, hshare t.id hne, isShown, hactive]
    rw [hl]

/-- A change of what is common that no open document sees. -/
theorem of_unseen (hsess : e'.sessions = e.sessions) (hactive : e'.active = e.active)
    (hframe : Frame e e') (hblank : ∀ id ∉ e.ids, e.share id = {} → e'.share id = {})
    (hshare : ∀ id ∈ e.ids, e'.share id = e.share id) : Evolves R e e' where
  ids := by rw [Editor.ids, hsess]; exact List.Sublist.refl _
  config := hframe.config
  opened := hframe.opened
  policy := hframe.policy
  armed := hframe.armed
  blank := hblank
  lanes t ht := by
    rw [hsess] at ht
    have hl : e'.lane t = e.lane t := by
      simp only [lane, hshare t.id (mem_ids ht), isShown, hactive]
    exact ⟨t, ht, rfl, hl ▸ .refl⟩

end Evolves

/-! ## What is done to a document -/

/-- Telling the status changes nothing but the outbox. -/
theorem publishStatus_eq (e : Editor) (s : Session) :
    ∃ outbox, e.publishStatus s = { e with outbox } := by
  unfold publishStatus
  split
  · exact ⟨_, rfl⟩
  · exact ⟨e.outbox, rfl⟩

section Shares

variable (e : Editor) {s : Session} {id : DocumentId}

theorem share_edit_of_ne (now : Time) (edits : List TextEdit) (h : id ≠ s.id) :
    (e.edit s now edits).2.share id = e.share id := by
  let edited : Session :=
    { s with
      text := TextEdit.applyAll s.text edits
      modified := true
      tracking := s.tracking.noteEdit }
  have harm : ((e.setSession edited).arm edited now .typing).share id = e.share id :=
    share_arm_of_ne (s := edited) now .typing h
  unfold edit
  dsimp only
  split
  · exact harm
  · exact (share_publishStatus_of_ne (s := edited) h).trans harm

theorem share_force_of_ne (h : id ≠ s.id) : (e.force s).share id = e.share id := by
  refine (share_start_of_ne (s := { s with tracking := s.tracking.invalidate }) _ h).trans ?_
  simp only [share, Debouncer.deadlines_cancel, if_neg h]
  rfl

theorem share_enable_of_ne (on : Bool) (h : id ≠ s.id) :
    (e.enable s on).share id = e.share id := by
  unfold enable
  split
  · rfl
  · exact share_force_of_ne _ (s := { s with tracking := s.tracking.setEnabled on }) h

theorem share_moveCaret_of_ne (position : Position) (h : id ≠ s.id) :
    (e.moveCaret s position).2.share id = e.share id := by
  unfold moveCaret
  dsimp only
  split
  · rfl
  · exact share_emit_of_ne h

theorem share_replay_of_ne (target : Option Position) (history : History) (h : id ≠ s.id) :
    (e.replay s target history).share id = e.share id := by
  unfold replay
  cases target with
  | none => rfl
  | some position => exact (share_emit_of_ne h).trans (share_emit_of_ne h)

theorem share_activate_of_ne (h : id ≠ s.id) : (e.activate s).share id = e.share id := by
  have hact : e.activate s =
      ((({ e with active := some s.id }.setSession
        { s with tracking := { s.tracking with viewsStale := false } }).tellMissed s).emit
          (.statusChanged s.id s.tracking.status)).emit
            (.affordancesChanged s.id s.history.affordances) := rfl
  rw [hact, share_emit_of_ne h, share_emit_of_ne h, share_tellMissed_of_ne h]
  rfl

theorem share_close_of_ne (h : id ≠ s.id) : (e.close s).share id = e.share id := by
  simp only [share, close, Debouncer.deadlines_cancel, SingleFlight.waiting_forget, if_neg h]
  rfl

/-- What is done to one document leaves the share of every other as it is. -/
theorem share_act_of_ne (action : Action) (h : id ≠ s.id) :
    (e.act s action).2.share id = e.share id := by
  cases action with
  | close => exact share_close_of_ne e h
  | activate => exact share_activate_of_ne e h
  | edit now edits => exact share_edit_of_ne e now edits h
  | saved now => exact share_arm_of_ne now .save h
  | structural now => exact share_arm_of_ne now .structural h
  | force => exact share_force_of_ne e h
  | enable on => exact share_enable_of_ne e on h
  | moveCaret position => exact share_moveCaret_of_ne e position h
  | goBack => exact share_replay_of_ne e _ _ h
  | goForward => exact share_replay_of_ne e _ _ h
  | markNext nextMove => rfl
  | setRecording on => rfl

end Shares

section Actions

variable {e : Editor} {s : Session} (hs : s ∈ e.sessions)

include hs

theorem evolves_edit (now : Time) (edits : List TextEdit) :
    Evolves (Lane.Act e.debouncer.policy) e (e.edit s now edits).2 := by
  let edited : Session :=
    { s with
      text := TextEdit.applyAll s.text edits
      modified := true
      tracking := s.tracking.noteEdit }
  let armed := (e.setSession edited).arm edited now .typing
  have hedit : (e.edit s now edits).2 =
      if s.tracking.status = .updatePending then armed else armed.publishStatus edited := rfl
  obtain ⟨outbox, hout⟩ : ∃ outbox, (e.edit s now edits).2 = { armed with outbox } := by
    rw [hedit]
    split
    · exact ⟨armed.outbox, rfl⟩
    · exact publishStatus_eq _ _
  have hlane : (e.edit s now edits).2.lane edited =
      (e.lane s).edit e.debouncer.policy now edits := by
    have harm := lane_arm (e.setSession edited) edited now .typing
    have hsl : (e.lane s).session = s := rfl
    rw [hedit]
    unfold Lane.edit
    dsimp only
    rw [hsl]
    split
    · exact harm
    · rw [lane_publishStatus]
      exact congrArg Lane.publishStatus harm
  have hframe : Frame e (e.edit s now edits).2 := by
    rw [hout]
    exact ((Frame.setSession e edited).arm edited now .typing).trans (.of_eq rfl rfl rfl)
  exact .of_session edited hs rfl (by rw [hout]; rfl) (by rw [hout]; rfl) hframe
    (fun _ hne => share_edit_of_ne e now edits hne) (hlane ▸ .edit now edits)

theorem evolves_rearm {R : Lane → Lane → Prop} (now : Time) (trigger : Trigger) (modified : Bool)
    (hR : R (e.lane s) ((e.lane s).rearm e.debouncer.policy now trigger modified)) :
    Evolves R e
      ((e.setSession { s with modified, tracking := s.tracking.invalidate }).arm
        { s with modified, tracking := s.tracking.invalidate } now trigger) := by
  let dirty : Session := { s with modified, tracking := s.tracking.invalidate }
  have hlane : ((e.setSession dirty).arm dirty now trigger).lane dirty =
      (e.lane s).rearm e.debouncer.policy now trigger modified :=
    lane_arm (e.setSession dirty) dirty now trigger
  have hframe : Frame e ((e.setSession dirty).arm dirty now trigger) :=
    (Frame.setSession e dirty).arm dirty now trigger
  exact .of_session dirty hs rfl rfl rfl hframe
    (fun id hne => share_arm_of_ne (s := dirty) now trigger hne) (hlane ▸ hR)

theorem evolves_noteSaved (now : Time) :
    Evolves (Lane.Act e.debouncer.policy) e (e.noteSaved s now) :=
  evolves_rearm hs now .save false (.saved now)

theorem evolves_noteStructural (now : Time) :
    Evolves (Lane.Act e.debouncer.policy) e (e.noteStructural s now) :=
  evolves_rearm hs now .structural s.modified (.structural now)

/-- A pass is requested after the document was changed. -/
theorem evolves_start {R : Lane → Lane → Prop} (e₁ : Editor) (s₁ : Session) (mode : Mode)
    (hid : s₁.id = s.id) (hsess : e₁.sessions = (e.setSession s₁).sessions)
    (hactive : e₁.active = e.active) (hframe : Frame e e₁)
    (hshare : ∀ id, id ≠ s.id → e₁.share id = e.share id)
    (hR : ∀ l, Lane.Requests mode (e₁.lane s₁) l → R (e.lane s) l) :
    Evolves R e (e₁.start s₁ mode).2 := by
  obtain ⟨s', hid', hreq, hsess'⟩ := lane_start e₁ s₁ mode
  obtain ⟨-, -, hactive', -⟩ := start_keeps e₁ s₁ mode
  have hs' : (e₁.start s₁ mode).2.sessions = (e.setSession s').sessions := by
    rcases hsess' with h | ⟨rfl, h⟩
    · rw [h, ← setSession_setSession (e := e) hid'.symm]
      simp only [setSession, hsess]
    · rw [h, hsess]
  exact .of_session s' hs (hid'.trans hid) hs' (hactive'.trans hactive) (hframe.start s₁ mode)
    (fun id hne => (share_start_of_ne mode (hid ▸ hne)).trans (hshare id hne)) (hR _ hreq)

/-- Dropping the deadlines of a document leaves all other documents alone. -/
theorem evolves_force {R : Lane → Lane → Prop} (e₁ : Editor) (s₁ : Session)
    (hid : s₁.id = s.id)
    (hsess : ∀ t : Session, s₁.id = t.id → (e₁.setSession t).sessions = (e.setSession t).sessions)
    (hactive : e₁.active = e.active) (hframe : Frame e e₁)
    (hshare : ∀ id, id ≠ s.id → e₁.share id = e.share id)
    (hR : ∀ l, Lane.Requests s₁.tracking.mode (e₁.lane s₁).forced l → R (e.lane s) l) :
    Evolves R e (e₁.force s₁) := by
  let dirty : Session := { s₁ with tracking := s₁.tracking.invalidate }
  refine evolves_start hs { e₁.setSession dirty with debouncer := e₁.debouncer.cancel s₁.id } dirty
    dirty.tracking.mode hid (hsess dirty rfl) hactive ?_ ?_ ?_
  · exact ⟨hframe.config, hframe.opened, hframe.policy, fun h => (hframe.armed h).cancel _⟩
  · intro id hne
    have h := hshare id hne
    simp only [share, Debouncer.deadlines_cancel, if_neg (hid ▸ hne)] at h ⊢
    exact h
  · intro l hl
    have hlane : ({ e₁.setSession dirty with debouncer := e₁.debouncer.cancel s₁.id } : Editor).lane
        dirty = (e₁.lane s₁).forced := by
      simp only [lane, share, Debouncer.deadlines_cancel, dirty, if_pos]
      rfl
    exact hR l (hlane ▸ hl)

theorem evolves_enable (on : Bool) :
    Evolves (Lane.Act e.debouncer.policy) e (e.enable s on) := by
  unfold enable
  split
  · exact .refl _ e
  · next hne =>
    let switched : Session := { s with tracking := s.tracking.setEnabled on }
    exact evolves_force hs (e.setSession switched) switched rfl (fun _ h => setSession_setSession h)
      rfl (.setSession e switched) (fun _ _ => rfl) (fun l hl => .enable on hne hl)

theorem evolves_setHistory {R : Lane → Lane → Prop} (history : History)
    (hR : R (e.lane s) ((e.lane s).setHistory history)) :
    Evolves R e (e.setSession { s with history }) :=
  .of_session { s with history } hs rfl rfl rfl (.setSession e _) (fun _ _ => rfl) hR

theorem evolves_moveCaret (position : Position) :
    Evolves (Lane.Act e.debouncer.policy) e (e.moveCaret s position).2 := by
  let moved : Session := { s with history := (s.history.record position).2 }
  have hact : Lane.Act e.debouncer.policy (e.lane s) ((e.lane s).moveCaret position) :=
    .moveCaret position
  unfold Lane.moveCaret at hact
  unfold moveCaret
  dsimp only at hact ⊢
  have hsl : (e.lane s).session = s := rfl
  rw [hsl] at hact
  split
  · next h =>
    rw [if_pos h] at hact
    exact .of_session moved hs rfl rfl rfl (.setSession e _) (fun _ _ => rfl) hact
  · next h =>
    rw [if_neg h] at hact
    refine .of_session moved hs rfl rfl rfl (.of_eq rfl rfl rfl)
      (fun id hne => share_emit_of_ne hne) ?_
    rw [lane_emit rfl]
    exact hact

theorem evolves_replay {R : Lane → Lane → Prop} (target : Option Position) (history : History)
    (hR : R (e.lane s) ((e.lane s).replay target history)) :
    Evolves R e (e.replay s target history) := by
  let moved : Session := { s with history }
  unfold Lane.replay at hR
  unfold replay
  cases target with
  | none => exact .of_session moved hs rfl rfl rfl (.setSession e _) (fun _ _ => rfl) hR
  | some position =>
    refine .of_session moved hs rfl rfl rfl (.of_eq rfl rfl rfl)
      (fun _ hne => share_replay_of_ne e (some position) history hne) ?_
    rw [lane_emit rfl, lane_emit rfl]
    exact hR

theorem evolves_activate : Evolves (Lane.Act e.debouncer.policy) e (e.activate s) := by
  let seen : Session := { s with tracking := { s.tracking with viewsStale := false } }
  let shown : Editor := { e with active := some s.id }.setSession seen
  have hact : e.activate s =
      ((shown.tellMissed s).emit (.statusChanged s.id s.tracking.status)).emit
        (.affordancesChanged s.id s.history.affordances) := rfl
  obtain ⟨outbox, hout⟩ : ∃ outbox, e.activate s = { shown with outbox } := by
    rw [hact]
    unfold tellMissed
    split <;> exact ⟨_, rfl⟩
  have hlane : (e.activate s).lane seen = (e.lane s).activate := by
    have hshown : shown.lane seen =
        { (e.lane s).setTracking seen.tracking with shown := true } := by
      simp [lane, share, shown, seen, isShown, setSession, Lane.setTracking, Editor.told]
    have htold : (shown.tellMissed s).lane seen = (shown.lane seen).tellMissed s :=
      lane_tellMissed rfl
    rw [hact, lane_emit rfl, lane_emit rfl, htold, hshown]
    rfl
  refine .of_lanes seen hs rfl (by rw [hout]; rfl) (by rw [hout]; exact .of_eq rfl rfl rfl) ?_ ?_
    (hlane ▸ .activate)
  · intro id hm hb
    have hne : id ≠ s.id := fun h => hm (h ▸ mem_ids hs)
    rw [share_activate_of_ne e hne, hb]
  intro t _ hne
  -- Another document is shown from now on.
  have hhide : (e.activate s).lane t = { e.lane t with shown := false } := by
    have hs' : (e.activate s).isShown t.id = false := by
      rw [hout]
      simpa [isShown, shown, setSession] using hne.symm
    simp only [lane, hs', share_activate_of_ne e hne]
  rw [hhide]
  exact .single .hide

theorem evolves_close (R : Lane → Lane → Prop) : Evolves R e (e.close s) where
  ids := List.Sublist.map _ List.filter_sublist
  config := rfl
  opened := rfl
  policy := rfl
  armed h := h.cancel s.id
  blank id hm hb := by
    have hne : id ≠ s.id := fun h => hm (h ▸ mem_ids hs)
    rw [share_close_of_ne e hne, hb]
  lanes t ht := by
    obtain ⟨ht, hne⟩ := List.mem_filter.1 ht
    have hne : t.id ≠ s.id := by simpa using hne
    have hshown : (e.close s).isShown t.id = e.isShown t.id := by
      unfold isShown close
      by_cases ha : e.active = some s.id
      · simp [ha, hne.symm]
      · simp [ha]
    have hl : (e.close s).lane t = e.lane t := by
      simp only [lane, hshown, share_close_of_ne e hne]
    exact ⟨t, ht, rfl, hl ▸ .refl⟩

theorem evolves_act (action : Action) :
    Evolves (Lane.Act e.debouncer.policy) e (e.act s action).2 := by
  cases action with
  | close => exact evolves_close hs _
  | activate => exact evolves_activate hs
  | edit now edits => exact evolves_edit hs now edits
  | saved now => exact evolves_noteSaved hs now
  | structural now => exact evolves_noteStructural hs now
  | force =>
    exact evolves_force hs e s rfl (fun _ _ => rfl) rfl (.of_eq rfl rfl rfl) (fun _ _ => rfl)
      (fun l hl => .force hl)
  | enable on => exact evolves_enable hs on
  | moveCaret position => exact evolves_moveCaret hs position
  | goBack => exact evolves_replay hs _ _ .goBack
  | goForward => exact evolves_replay hs _ _ .goForward
  | markNext nextMove => exact evolves_setHistory hs _ (.markNext nextMove)
  | setRecording on => exact evolves_setHistory hs _ (.setRecording on)

end Actions

end ScriptDesk.Editor
