import ScriptDesk.Proofs.Mirror

/-!
# ScriptDesk.Proofs.Locality

What is done to one document concerns no other. The tables of the editor are common to all
documents, and `Editor.others` is what is left of them without one document. An action on that
document leaves it as it is (`Editor.others_act`), and tells of that document only
(`Editor.exists_told_act`); an action on a document that is not open does nothing at all
(`Editor.acts_locally`). So a document does not notice what is done to others, however much it is
(`Editor.unnoticed_run`).
-/

namespace ScriptDesk

/-- Changing the entries of one document changes nothing of the rest of a table. -/
theorem filter_ne_map_ite {α : Type} (key : α → DocumentId) (id : DocumentId) {f : α → α}
    (hf : ∀ a, key a = id → key (f a) = id) (table : List α) :
    (table.map fun a => if key a = id then f a else a).filter (key · ≠ id) =
      table.filter (key · ≠ id) := by
  induction table with
  | nil => rfl
  | cons a rest ih =>
    by_cases ha : key a = id
    · simpa [ha, hf a ha] using ih
    · simpa [ha] using ih

/-! ## The queue -/

namespace SingleFlight

variable (f : SingleFlight) (id : DocumentId)

/-- The entries of the queue that are not of the document, in their turns. -/
def queuedOthers : List Queued := f.queue.filter (·.document ≠ id)

theorem queuedOthers_forget : (f.forget id).queuedOthers id = f.queuedOthers id := by
  simp [queuedOthers, forget]

/-- Queueing a document adds its entry behind all others, or changes the entry that it has. -/
theorem queuedOthers_enqueue (mode : Mode) :
    (f.enqueue id mode).queuedOthers id = f.queuedOthers id := by
  unfold queuedOthers enqueue
  dsimp only
  split
  · refine filter_ne_map_ite (·.document) id ?_ f.queue
    exact fun _ hq => hq
  · simp

/-- A pass that starts takes entries of its own document only. -/
theorem queuedOthers_launch (s : Snapshot) :
    (f.launch s).queuedOthers s.document = f.queuedOthers s.document := by
  unfold queuedOthers launch dropCovered
  rw [List.filter_filter]
  refine List.filter_congr fun q _ => ?_
  by_cases h : q.document = s.document <;> simp [h]

end SingleFlight

/-- The open documents without one, in the order in which they were opened, and those of them
that wait for the place for passes, in their turns. -/
structure Others where
  sessions : List Session
  queue : List Queued

namespace Editor

variable {e e' : Editor} {s : Session} {id other : DocumentId}

/-- What is left of the tables without the document. -/
def others (e : Editor) (id : DocumentId) : Others where
  sessions := e.sessions.filter (·.id ≠ id)
  queue := e.flight.queuedOthers id

/-- The others are found as they were. -/
theorem session?_eq_of_others (h : e'.others id = e.others id) (hne : other ≠ id) :
    e'.session? other = e.session? other := by
  have hfind : ∀ e : Editor, e.session? other = (e.others id).sessions.find? (·.id = other) := by
    intro e
    unfold session? others
    rw [List.find?_filter]
    congr 1
    funext s
    by_cases hs : s.id = other <;> simp [hs, hne]
  rw [hfind e', h, ← hfind e]

/-! ## The changes that actions are made of -/

theorem others_setSession (e : Editor) (s : Session) :
    (e.setSession s).others s.id = e.others s.id := by
  unfold others setSession
  congr 1
  exact filter_ne_map_ite (·.id) s.id (fun _ _ => rfl) e.sessions

theorem others_publishStatus (e : Editor) (s : Session) (id : DocumentId) :
    (e.publishStatus s).others id = e.others id := by
  obtain ⟨outbox, h⟩ := e.publishStatus_eq s
  rw [h]
  rfl

/-- A pass is requested on a document as it is by now. -/
theorem others_start (e : Editor) (s : Session) (mode : Mode) :
    (e.start s mode).2.others s.id = e.others s.id := by
  cases hb : e.flight.isBusy with
  | true =>
    rw [start_of_busy hb]
    exact congrArg (Others.mk _) (e.flight.queuedOthers_enqueue s.id mode)
  | false =>
    let noted : Session := { s with tracking := s.tracking.noteStart mode }
    let launched : Editor := { e with flight := e.flight.launch (s.snapshot mode) }
    have hlaunched : (launched.setSession noted).others s.id = e.others s.id :=
      (launched.others_setSession noted).trans
        (congrArg (Others.mk _) (e.flight.queuedOthers_launch (s.snapshot mode)))
    rw [start_of_free hb]
    dsimp only
    split
    · exact hlaunched
    · rw [others_publishStatus]
      exact hlaunched

theorem others_force (e : Editor) (s : Session) : (e.force s).others s.id = e.others s.id := by
  let dirty : Session := { s with tracking := s.tracking.invalidate }
  exact (others_start _ dirty _).trans (e.others_setSession dirty)

theorem others_replay (e : Editor) (s : Session) (target : Option Position) (history : History) :
    (e.replay s target history).others s.id = e.others s.id := by
  have hmoved := e.others_setSession { s with history }
  unfold replay
  dsimp only
  split <;> exact hmoved

/-! ## Actions -/

theorem others_act (e : Editor) (s : Session) (action : Action) :
    (e.act s action).2.others s.id = e.others s.id := by
  cases action with
  | close =>
    unfold act others close
    congr 1
    · simp
    · exact e.flight.queuedOthers_forget s.id
  | activate =>
    have hshown := { e with active := some s.id }.others_setSession
      { s with tracking := { s.tracking with viewsStale := false } }
    unfold act activate
    dsimp only
    split <;> exact hshown
  | edit now edits =>
    have hedited := e.others_setSession
      { s with
        text := TextEdit.applyAll s.text edits
        modified := true
        tracking := s.tracking.noteEdit }
    unfold act edit
    dsimp only
    split
    · exact hedited
    · rw [others_publishStatus]
      exact hedited
  | saved now =>
    exact e.others_setSession { s with modified := false, tracking := s.tracking.invalidate }
  | structural now => exact e.others_setSession { s with tracking := s.tracking.invalidate }
  | force => exact e.others_force s
  | enable on =>
    let switched : Session := { s with tracking := s.tracking.setEnabled on }
    unfold act enable
    dsimp only
    split
    · rfl
    · exact (others_force _ switched).trans (e.others_setSession switched)
  | moveCaret position =>
    have hmoved := e.others_setSession { s with history := (s.history.record position).2 }
    unfold act moveCaret
    dsimp only
    split <;> exact hmoved
  | goBack => exact e.others_replay s _ _
  | goForward => exact e.others_replay s _ _
  | markNext nextMove => exact e.others_setSession { s with history := s.history.mark nextMove }
  | setRecording on => exact e.others_setSession { s with history := s.history.setRecording on }

/-- What an action tells is about its document. -/
theorem exists_told_act (hs : s ∈ e.sessions) (action : Action) :
    ∃ new, (e.act s action).2.outbox = e.outbox ++ new ∧ ∀ event ∈ new, event.document = s.id := by
  obtain ⟨e₁, hout, -, htells⟩ := tells_act hs action
  obtain ⟨new, hnew, -⟩ := htells.events
  rw [hout] at hnew
  refine ⟨new, hnew, fun event hevent => Decidable.byContradiction fun hne => ?_⟩
  have htold : (e.act s action).2.told event.document = e.told event.document :=
    congrArg Share.told (share_act_of_ne e action hne)
  rw [Editor.told, hnew, List.filter_append, Editor.told, List.append_right_eq_self,
    List.filter_eq_nil_iff] at htold
  exact htold event hevent (decide_eq_true rfl)

/-! ## Commands -/

/-- An action is carried out if its document is open, and refused otherwise. -/
theorem perform_act_cases (e : Editor) (id : DocumentId) (action : Action) :
    (e.isOpen id = false ∧ e.perform (.act id action) = (.unknownDocument id, e)) ∨
      ∃ s ∈ e.sessions, s.id = id ∧ e.isOpen id = true ∧
        e.perform (.act id action) = (.reply (e.act s action).1, (e.act s action).2) := by
  unfold isOpen
  cases hs : e.session? id with
  | none => exact .inl ⟨rfl, perform_act_of_not_open action hs⟩
  | some s =>
    obtain ⟨hmem, hid⟩ := mem_of_session?_eq_some hs
    exact .inr ⟨s, hmem, hid, rfl, by simp [perform, hs]⟩

theorem others_perform (e : Editor) (id : DocumentId) (action : Action) :
    (e.perform (.act id action)).2.others id = e.others id := by
  rcases e.perform_act_cases id action with ⟨-, heq⟩ | ⟨s, -, rfl, -, heq⟩ <;> rw [heq]
  exact others_act e s action

theorem share_perform_of_ne (e : Editor) (action : Action) (hne : other ≠ id) :
    (e.perform (.act id action)).2.share other = e.share other := by
  rcases e.perform_act_cases id action with ⟨-, heq⟩ | ⟨s, -, rfl, -, heq⟩ <;> rw [heq]
  exact share_act_of_ne e action hne

theorem exists_told_perform (e : Editor) (id : DocumentId) (action : Action) :
    ∃ new, (e.perform (.act id action)).2.outbox = e.outbox ++ new ∧
      ∀ event ∈ new, event.document = id := by
  rcases e.perform_act_cases id action with ⟨-, heq⟩ | ⟨s, hs, rfl, -, heq⟩ <;> rw [heq]
  · exact ⟨[], (List.append_nil _).symm, by simp⟩
  · exact exists_told_act hs action

/-- Whatever is done to others, a document stays the same with all that is its own. -/
theorem unnoticed_run (e : Editor) {done : List (DocumentId × Action)}
    (h : ∀ x ∈ done, x.1 ≠ id) :
    (e.run (done.map fun x => .act x.1 x.2)).session? id = e.session? id ∧
      (e.run (done.map fun x => .act x.1 x.2)).share id = e.share id := by
  induction done generalizing e with
  | nil => exact ⟨rfl, rfl⟩
  | cons x rest ih =>
    obtain ⟨hx, hrest⟩ := List.forall_mem_cons.1 h
    obtain ⟨hsession, hshare⟩ := ih (e.perform (.act x.1 x.2)).2 hrest
    rw [List.map_cons, run_cons, hsession, hshare]
    exact ⟨session?_eq_of_others (e.others_perform x.1 x.2) hx.symm,
      e.share_perform_of_ne x.2 hx.symm⟩

/-- What an action that is asked for on a document does to everything else. -/
structure ActsLocally (e : Editor) (id : DocumentId) (action : Action) : Prop where
  /-- The other documents stay as they are, and their places in the queue with them. -/
  others : (e.perform (.act id action)).2.others id = e.others id
  /-- Each of them has the deadlines that it had, it waits in the same mode, the pass on it goes
  on if there is one, and nothing is told about it. -/
  share : ∀ other, other ≠ id → (e.perform (.act id action)).2.share other = e.share other
  /-- What is told is told about the document. -/
  told : ∃ new, (e.perform (.act id action)).2.outbox = e.outbox ++ new ∧
    ∀ event ∈ new, event.document = id
  /-- An action on an open document is answered, -/
  answered : (∃ reply, (e.perform (.act id action)).1 = .reply reply) ↔ e.isOpen id = true
  /-- and one on any other document is refused and has no effect. -/
  refused : e.perform (.act id action) = (.unknownDocument id, e) ↔ e.isOpen id = false

/-- An action does nothing to anything but its document, and it does nothing at all if that
document is not open. This is so in every state of the editor, reached or not. -/
theorem acts_locally (e : Editor) (id : DocumentId) (action : Action) :
    e.ActsLocally id action := by
  refine ⟨e.others_perform id action, fun _ hne => e.share_perform_of_ne action hne,
    e.exists_told_perform id action, ?_, ?_⟩
  all_goals
    rcases e.perform_act_cases id action with ⟨hopen, heq⟩ | ⟨s, -, -, hopen, heq⟩
    · simp [hopen, heq]
    · simp [hopen, heq]

/-- The first of four documents is analyzed, the next two wait and are armed, and the last one
was closed. -/
def crowd : List Command :=
  [.openDocument none "", .openDocument none "", .openDocument none "", .openDocument none "",
    .act ⟨2⟩ (.edit 0 []), .act ⟨3⟩ (.edit 0 []), .act ⟨4⟩ .close]

theorem acts_locally_in_crowd :
    ((new {}).run crowd).flight.inFlight? = some (⟨1⟩, 0, .full) ∧
      ((new {}).run crowd).flight.queue = [⟨⟨2⟩, .full⟩, ⟨⟨3⟩, .full⟩] ∧
      ((new {}).run crowd).debouncer.isArmed ⟨2⟩ = true ∧
      ((new {}).run crowd).debouncer.isArmed ⟨3⟩ = true ∧
      ((new {}).run crowd).ActsLocally ⟨2⟩ .close ∧
      ((new {}).run crowd).perform (.act ⟨4⟩ .force) =
        (.unknownDocument ⟨4⟩, (new {}).run crowd) :=
  ⟨by decide, by decide, by decide, by decide, acts_locally _ _ _,
    (acts_locally _ _ _).refused.2 (by decide)⟩

end Editor

end ScriptDesk
