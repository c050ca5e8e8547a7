import ScriptDesk.CommandLine.Watch
import ScriptDesk.Proofs.Scratch

/-!
# ScriptDesk.Proofs.Solitary

An editor with one document, which is shown. Between ticks it is in one of three phases:
nothing is to be done (`Resting`), a pass is on the document as it is (`Busy`), or
deadlines are armed that ask for one such pass (`Armed`). A tick leaves the phase as it is,
or goes from armed to busy, or from busy to resting; only the last of these asks for the
views to be refreshed, and it does so once.
-/

namespace ScriptDesk

/-! ## Refreshed views -/

/-- The document whose views have to be refreshed for an event. -/
def Event.refreshed? : Event → Option DocumentId
  | .analysisApplied id _ => some id
  | _ => none

theorem refreshedDocuments_eq (events : List Event) :
    refreshedDocuments events = (events.filterMap Event.refreshed?).eraseDups := by
  unfold refreshedDocuments
  congr 2

/-- No views have to be refreshed for the events. -/
def IsQuiet (events : List Event) : Prop := events.filterMap Event.refreshed? = []

theorem isQuiet_nil : IsQuiet [] := rfl

theorem isQuiet_status (id : DocumentId) (status : Status) : IsQuiet [.statusChanged id status] :=
  rfl

theorem IsQuiet.append {events more : List Event} (h : IsQuiet events) (h' : IsQuiet more) :
    IsQuiet (events ++ more) := by
  unfold IsQuiet at *
  rw [List.filterMap_append, h, h', List.append_nil]

theorem refreshedDocuments_of_isQuiet {events : List Event} (h : IsQuiet events) :
    refreshedDocuments events = [] := by
  rw [refreshedDocuments_eq, h]
  rfl

theorem refreshedDocuments_around {before after : List Event} (hb : IsQuiet before)
    (ha : IsQuiet after) (id : DocumentId) (a : Analysis) :
    refreshedDocuments (before ++ .analysisApplied id a :: after) = [id] := by
  rw [refreshedDocuments_eq, List.filterMap_append, hb, List.nil_append,
    List.filterMap_cons_some (show Event.refreshed? _ = some id from rfl), ha]
  rfl

namespace Editor

variable {e : Editor} {s : Session}

/-! ## Phases -/

/-- The document is the only one, it is shown, and it does not wait for its turn. -/
structure Solitary (e : Editor) (s : Session) : Prop where
  sessions : e.sessions = [s]
  shown : e.active = some s.id
  unqueued : e.flight.queue = []

/-- Nothing is to be done. -/
structure Resting (e : Editor) : Prop where
  free : e.flight.slot = .free
  unarmed : e.debouncer.armed = []

/-- The pass under way is on the document as it is, and the analysis on record is not. -/
structure Busy (e : Editor) (s : Session) : Prop where
  document : e.flight.slot.document? = some s.id
  stamp : e.flight.slot.stamp? = some s.tracking.current
  unarmed : e.debouncer.armed = []
  outdated : ∀ a, s.tracking.applied = some a → a.version < s.tracking.version

/-- Whatever comes due is a pass on the document as it is, and the analysis on record is
not on that. -/
structure Armed (e : Editor) (s : Session) : Prop where
  free : e.flight.slot = .free
  needed : s.tracking.needsAnalysis = true
  armed : ∃ d, e.debouncer.armed = [(s.id, d)] ∧ d.isIdle = false ∧
    ∀ now deadline mode, d.due? now s.tracking.enabled = some (deadline, mode) →
      mode = s.tracking.mode
  outdated : ∀ a, s.tracking.applied = some a → a.version < s.tracking.version

theorem Solitary.session? (h : e.Solitary s) : e.session? s.id = some s := by
  simp [Editor.session?, h.sessions]

theorem Solitary.mem (h : e.Solitary s) : s ∈ e.sessions := by
  rw [h.sessions]
  exact List.mem_singleton.2 rfl

theorem Solitary.isShown (h : e.Solitary s) : e.isShown s.id = true := by
  simp [Editor.isShown, h.shown]

theorem Solitary.sessions_setSession (h : e.Solitary s) {t : Session} (hid : t.id = s.id) :
    (e.setSession t).sessions = [t] := by
  simp [setSession, h.sessions, hid]

theorem Resting.isIdle (hr : e.Resting) (h : e.Solitary s) : e.isIdle = true := by
  simp [Editor.isIdle, isAnalyzing, nextWakeup?, Debouncer.next?, hr.unarmed, h.unqueued,
    SingleFlight.isBusy_eq_false_iff.2 hr.free]

/-- A pass that has ended is still the pass on the document. -/
theorem Busy.finishPass (hb : e.Busy s) (analyzer : Analyzer) :
    (e.finishPass analyzer).2.Busy s := by
  obtain ⟨hflight, hdeb⟩ := e.finishPass_keeps analyzer
  refine ⟨?_, ?_, by rw [hdeb]; exact hb.unarmed, hb.outdated⟩
  · rw [hflight]
    simpa using hb.document
  · rw [hflight]
    simpa using hb.stamp

/-! ## Passes that start -/

/-- What is told when a pass starts refreshes no views. -/
theorem outbox_start_of_free (hfree : e.flight.isBusy = false) (s : Session) (mode : Mode) :
    ∃ events, IsQuiet events ∧ (e.start s mode).2.outbox = e.outbox ++ events := by
  rw [start_of_free hfree]
  dsimp only
  split
  · exact ⟨[], isQuiet_nil, (List.append_nil _).symm⟩
  · unfold publishStatus
    split
    · exact ⟨[_], isQuiet_status _ _, rfl⟩
    · exact ⟨[], isQuiet_nil, (List.append_nil _).symm⟩

/-- A pass in the mode of the document starts on the document as it is. -/
theorem Solitary.start (h : e.Solitary s) (hfree : e.flight.slot = .free)
    (hunarmed : e.debouncer.armed = [])
    (houtdated : ∀ a, s.tracking.applied = some a → a.version < s.tracking.version) :
    let s' := { s with tracking := s.tracking.noteStart s.tracking.mode }
    (e.start s s.tracking.mode).2.Solitary s' ∧ (e.start s s.tracking.mode).2.Busy s' := by
  intro s'
  have hbusy : e.flight.isBusy = false := SingleFlight.isBusy_eq_false_iff.2 hfree
  have hflight := flight_start_of_free hbusy s s.tracking.mode
  obtain ⟨-, -, hactive, hdeb⟩ := start_keeps e s s.tracking.mode
  obtain ⟨hsess, -⟩ := lane_start_of_free hbusy s s.tracking.mode
  refine ⟨⟨?_, hactive.trans h.shown, ?_⟩, ⟨?_, ?_, ?_, houtdated⟩⟩
  · rw [hsess]
    exact h.sessions_setSession rfl
  · rw [hflight]
    simp [SingleFlight.launch, SingleFlight.dropCovered, h.unqueued]
  · rw [hflight]
    rfl
  · rw [hflight]
    rfl
  · rw [hdeb]
    exact hunarmed

/-! ## The phases of a tick -/

theorem startQueued_of_unqueued (h : e.flight.queue = []) : e.startQueued.2 = e := by
  rcases e.startQueued_cases with ⟨-, heq⟩ | ⟨-, -, heq⟩ | ⟨closed, q, rest, _, -, hqueue, -⟩
  · exact heq
  · rw [heq, withQueue, ← h]
  · rw [h] at hqueue
    simp at hqueue

theorem startDue_of_unarmed (h : e.debouncer.armed = []) (now : Time) :
    (e.startDue now).2.2 = e := by
  obtain ⟨config, opened, sessions, active, ⟨policy, armed⟩, flight, outbox⟩ := e
  obtain rfl : armed = [] := h
  rfl

theorem takeInCompleted_of_free (h : e.flight.slot = .free) : e.takeInCompleted = ({}, e) :=
  takeInCompleted_of_not_finished fun done hdone => by
    rw [h] at hdone
    contradiction

/-- With nothing armed or queued a tick only takes in what has been completed. -/
theorem tick_of_unarmed (hqueue : e.flight.queue = []) (harmed : e.debouncer.armed = [])
    (now : Time) : (e.tick now).2 = e.takeInCompleted.2 := by
  have hkept : e.takeInCompleted.2.flight.queue = [] ∧
      e.takeInCompleted.2.debouncer.armed = [] := by
    rcases e.takeInCompleted_forms with ⟨done, -, heq⟩ | ⟨-, heq⟩ <;> rw [heq]
    · obtain ⟨hf, hd⟩ := e.freed.takeIn_keeps done
      rw [hf, hd]
      exact ⟨hqueue, harmed⟩
    · exact ⟨hqueue, harmed⟩
  rw [tick_snd, startQueued_of_unqueued hkept.1, startDue_of_unarmed hkept.2]

theorem Resting.tick (hr : e.Resting) (h : e.Solitary s) (now : Time) : (e.tick now).2 = e := by
  rw [tick_of_unarmed h.unqueued hr.unarmed, takeInCompleted_of_free hr.free]

/-- The editor goes on with the pass until it has ended. -/
theorem Busy.tick_of_running (hb : e.Busy s) (h : e.Solitary s)
    (hslot : ∀ done, e.flight.slot ≠ .finished done) (now : Time) : (e.tick now).2 = e := by
  rw [tick_of_unarmed h.unqueued hb.unarmed, takeInCompleted_of_not_finished hslot]

theorem Busy.document_eq (hb : e.Busy s) {done : Completion}
    (hslot : e.flight.slot = .finished done) : done.document = s.id := by
  simpa [hslot, Slot.document?] using hb.document

/-- The completion is the newest, so it goes on record. -/
theorem Busy.settle_eq (hb : e.Busy s) {done : Completion}
    (hslot : e.flight.slot = .finished done) :
    s.tracking.settle done true =
      (.applied true (!s.tracking.isSettledBy done.mode),
        (s.tracking.noteEnd done.version).apply ⟨done.version, done.mode⟩ done.outcome true) := by
  have hstamp : (⟨done.version, done.mode⟩ : Stamp) = s.tracking.current := by
    simpa [hslot, Slot.stamp?] using hb.stamp
  have hversion : done.version = s.tracking.version := congrArg Stamp.version hstamp
  have hfresh : s.tracking.isStale ⟨done.version, done.mode⟩ = false := by
    unfold Tracking.isStale
    cases happlied : s.tracking.applied with
    | none => rfl
    | some a => exact Stamp.isOlder_eq_false_iff.2 (.inl (hversion ▸ hb.outdated a happlied))
  rcases s.tracking.settle_outcomes done true with ⟨hnew, -⟩ | ⟨-, hs, -⟩ | ⟨-, -, heq⟩
  · exact absurd hnew (Nat.not_lt.2 (Nat.le_of_eq hversion))
  · rw [hfresh] at hs
    contradiction
  · exact heq

/-- Once it has ended, its outcome goes on record, and the views are refreshed. -/
theorem Busy.tick_of_finished (hb : e.Busy s) (h : e.Solitary s) {done : Completion}
    (hslot : e.flight.slot = .finished done) (now : Time) :
    ∃ tracking a status, (e.tick now).2.Solitary { s with tracking } ∧ (e.tick now).2.Resting ∧
      tracking.enabled = s.tracking.enabled ∧
      (e.tick now).2.outbox =
        e.outbox ++ [.analysisApplied s.id a, .statusChanged s.id status] := by
  let ended := s.tracking.noteEnd done.version
  let tracking := ended.apply ⟨done.version, done.mode⟩ done.outcome true
  let a := ended.analysisOf done.mode done.outcome
  let told := ((e.freed.setSession { s with tracking }).emit (.analysisApplied s.id a)).emit
    (.statusChanged s.id tracking.status)
  have htick : (e.tick now).2 = told := by
    have hs : e.freed.session? done.document = some s := hb.document_eq hslot ▸ h.session?
    have hshown : e.freed.isShown s.id = true := h.isShown
    have hanalysis : tracking.analysis = some a := rfl
    rw [tick_of_unarmed h.unqueued hb.unarmed, takeInCompleted_of_finished hslot, takeIn, hs]
    dsimp only
    rw [hshown, hb.settle_eq hslot]
    dsimp only
    rw [hanalysis]
    exact if_pos hshown
  obtain ⟨inFlight, hended⟩ := s.tracking.noteEnd_eq done.version
  have henabled : tracking.enabled = s.tracking.enabled := by
    change (s.tracking.noteEnd done.version).enabled = _
    rw [hended]
  rw [htick]
  refine ⟨tracking, a, tracking.status, ⟨?_, h.shown, h.unqueued⟩, ⟨rfl, hb.unarmed⟩, henabled, ?_⟩
  · have hfreed : e.freed.Solitary s := ⟨h.sessions, h.shown, h.unqueued⟩
    exact hfreed.sessions_setSession rfl
  · exact List.append_assoc ..

/-- A pass in the mode of the document leaves nothing armed. -/
theorem afterFiring_mode (d : Deadlines) (t : Tracking) : d.afterFiring t.mode t.enabled = {} := by
  unfold Tracking.mode
  cases t.enabled <;> rfl

theorem Solitary.enabled?_eq (h : e.Solitary s) : e.enabled? s.id = some s.tracking.enabled := by
  rw [enabled?, h.session?]
  rfl

theorem deadlines_of_armed_eq (hsound : e.debouncer.Sound) {id : DocumentId} {d : Deadlines}
    (harmed : e.debouncer.armed = [(id, d)]) : e.debouncer.deadlines id = d :=
  hsound.deadlines_of_mem (harmed ▸ List.mem_singleton.2 rfl)

/-- The document is open, so its deadlines stay armed. -/
theorem Armed.dropClosed (ha : e.Armed s) (h : e.Solitary s) :
    e.debouncer.dropClosed e.enabled? = e.debouncer := by
  obtain ⟨d, harmed, hd, -⟩ := ha.armed
  unfold Debouncer.dropClosed
  rw [List.filter_eq_self.2]
  intro x hx
  rw [harmed, List.mem_singleton] at hx
  simp [hx, h.enabled?_eq, hd]

/-- The editor wakes up at the first deadline of the pass. -/
theorem Armed.nextWakeup?_eq (ha : e.Armed s) :
    ∃ d t, e.debouncer.armed = [(s.id, d)] ∧ d.earliest? = some t ∧ e.nextWakeup? = some t := by
  obtain ⟨d, harmed, hd, -⟩ := ha.armed
  have hearliest : d.earliest? ≠ none := by
    rw [ne_eq, Deadlines.earliest?_eq_none_iff, hd]
    exact Bool.false_ne_true
  obtain ⟨t, ht⟩ := Option.ne_none_iff_exists'.1 hearliest
  exact ⟨d, t, harmed, ht, by simp [nextWakeup?, Debouncer.next?, harmed, ht]⟩

/-- As long as nothing is due, the editor wakes up later. -/
theorem Armed.lt_nextWakeup? (ha : e.Armed s) (h : e.Solitary s) (hsound : e.debouncer.Sound)
    {now : Time} (hnone : e.debouncer.due now e.enabled? = []) :
    ∃ t, e.nextWakeup? = some t ∧ now < t := by
  obtain ⟨d, t, harmed, ht, hwakeup⟩ := ha.nextWakeup?_eq
  refine ⟨t, hwakeup, Nat.lt_of_not_le fun hle => ?_⟩
  obtain ⟨due, hdue⟩ := Option.isSome_iff_exists.1
    (Deadlines.due?_isSome_of_earliest? s.tracking.enabled ht hle)
  have hdeadlines := deadlines_of_armed_eq hsound harmed
  have hmem : (⟨due.1, s.id, due.2⟩ : Due) ∈ e.debouncer.due now e.enabled? :=
    (Debouncer.mem_due_iff hsound).2 ⟨_, h.enabled?_eq, by rw [hdeadlines, hdue]⟩
  rw [hnone] at hmem
  contradiction

/-- The armed pass starts once it is due, and until then nothing happens. -/
theorem Armed.tick (ha : e.Armed s) (h : e.Solitary s) (hsound : e.debouncer.Sound) (now : Time) :
    ((e.tick now).2 = e ∧ ∃ t, e.nextWakeup? = some t ∧ now < t) ∨
      ∃ tracking events, (e.tick now).2.Solitary { s with tracking } ∧
        (e.tick now).2.Busy { s with tracking } ∧ tracking.enabled = s.tracking.enabled ∧
        IsQuiet events ∧ (e.tick now).2.outbox = e.outbox ++ events := by
  have hfree : e.flight.isBusy = false := SingleFlight.isBusy_eq_false_iff.2 ha.free
  have hdrop : e.debouncer.dropClosed e.enabled? = e.debouncer := ha.dropClosed h
  have htick : (e.tick now).2 = (e.startDue now).2.2 := by
    rw [tick_snd, takeInCompleted_of_free ha.free, startQueued_of_unqueued h.unqueued]
  rw [htick]
  rcases startDue_cases hsound now with ⟨hnone, heq⟩ | ⟨t, deadline, mode, -, hmem, hdue, heq⟩
  · exact .inl ⟨by rw [heq, hdrop], ha.lt_nextWakeup? h hsound (hnone hfree)⟩
  · right
    obtain rfl : t = s := by
      rw [h.sessions] at hmem
      exact List.mem_singleton.1 hmem
    obtain ⟨d, harmed, -, hmode⟩ := ha.armed
    have hdeadlines := deadlines_of_armed_eq hsound harmed
    obtain rfl : mode = t.tracking.mode := hmode now deadline mode (hdeadlines ▸ hdue)
    have hunarmed : (e.afterFiring t t.tracking.mode).debouncer.armed = [] := by
      unfold afterFiring
      rw [afterFiring_mode, hdrop]
      simp [Debouncer.set, Debouncer.cancel, harmed]
    have hfired : (e.afterFiring t t.tracking.mode).Solitary t := ⟨h.sessions, h.shown, h.unqueued⟩
    obtain ⟨hsole, hbusy⟩ := hfired.start ha.free hunarmed ha.outdated
    obtain ⟨events, hquiet, hout⟩ :=
      outbox_start_of_free (e := e.afterFiring t t.tracking.mode) hfree t t.tracking.mode
    rw [heq, if_pos ha.needed]
    exact ⟨_, events, hsole, hbusy, rfl, hquiet, hout⟩

/-! ## A content that is written and saved -/

/-- With these delays, what a save arms is one pass: with full analysis on, the names alone
do not come due before everything does. -/
def SavesOnce (policy : Policy) (enabled : Bool) : Prop :=
  enabled = false ∨ policy.save ≤ policy.names

theorem mode_of_due?_save {policy : Policy} {t : Tracking} (h : SavesOnce policy t.enabled)
    {saved now deadline : Time} {mode : Mode}
    (hdue : (Deadlines.after saved (policy.arm .save t.enabled)).due? now t.enabled =
      some (deadline, mode)) : mode = t.mode := by
  unfold Tracking.mode
  cases hen : t.enabled with
  | false =>
    rw [hen] at hdue
    obtain ⟨_, -, heq⟩ := Option.map_eq_some_iff.1 hdue
    exact (Prod.mk.inj heq).2.symm
  | true =>
    -- Both deadlines are the same instant.
    have hsave : policy.save ≤ policy.names := h.resolve_left (by simp [hen])
    rw [hen] at hdue
    by_cases hle : saved + policy.save ≤ now
    · simp [Deadlines.due?, Deadlines.after, Policy.arm, Policy.delay, hle, Option.filter] at hdue
      exact hdue.2.symm
    · simp [Deadlines.due?, Deadlines.after, Policy.arm, Policy.delay, Nat.min_eq_right hsave, hle,
        Option.filter] at hdue

/-- The deadlines of the only document are armed anew. -/
theorem armed_trigger {d : Debouncer} {id : DocumentId} (h : ∀ x ∈ d.armed, x.1 = id) (now : Time)
    (trigger : Trigger) (enabled : Bool) :
    (d.trigger id now trigger enabled).armed =
      [(id, .after now (d.policy.arm trigger enabled))] := by
  have hcancel : (d.cancel id).armed = [] := by
    unfold Debouncer.cancel
    simpa using h
  simp [Debouncer.trigger, Debouncer.set, hcancel]

/-- The document with a new content that is not saved yet. -/
def rewritten (s : Session) (content : String) : Session :=
  { s with text := content, modified := true, tracking := s.tracking.noteEdit }

/-- The document after it was saved. -/
def stored (s : Session) : Session :=
  { s with modified := false, tracking := s.tracking.invalidate }

theorem Solitary.perform_edit (h : e.Solitary s) (now : Time) (content : String) :
    ∃ events, IsQuiet events ∧
      (e.perform (.act s.id (.edit now [.replaceAll content]))).2 =
        { (e.setSession (rewritten s content)).arm (rewritten s content) now .typing with
          outbox := e.outbox ++ events } := by
  let armed := (e.setSession (rewritten s content)).arm (rewritten s content) now .typing
  have hperform : (e.perform (.act s.id (.edit now [.replaceAll content]))).2 =
      if s.tracking.status = .updatePending then armed
      else armed.publishStatus (rewritten s content) := by
    unfold perform
    dsimp only
    rw [h.session?]
    rfl
  rw [hperform]
  split
  · exact ⟨[], isQuiet_nil, by rw [List.append_nil]; rfl⟩
  · have hshown : armed.isShown (rewritten s content).id = true := h.isShown
    exact ⟨[_], isQuiet_status _ _, if_pos hshown⟩

theorem Solitary.perform_saved (h : e.Solitary s) (now : Time) :
    (e.perform (.act s.id (.saved now))).2 =
      (e.setSession (stored s)).arm (stored s) now .save := by
  unfold perform
  dsimp only
  rw [h.session?]
  rfl

/-- The commands for a new content. -/
def writes (id : DocumentId) (content : String) (edited saved : Time) : List Command :=
  [.act id (.edit edited [.replaceAll content]), .act id (.saved saved)]

/-- A new content arms one pass, and no views are refreshed for it. -/
theorem Resting.run_writes (hr : e.Resting) (h : e.Solitary s)
    (hrecorded : ∀ a, s.tracking.applied = some a → a.version ≤ s.tracking.version)
    (hpolicy : SavesOnce e.debouncer.policy s.tracking.enabled) (content : String)
    (edited saved : Time) :
    let s' := stored (rewritten s content)
    (e.run (writes s.id content edited saved)).Solitary s' ∧
      (e.run (writes s.id content edited saved)).Armed s' ∧
      ∃ events, IsQuiet events ∧
        (e.run (writes s.id content edited saved)).outbox = e.outbox ++ events := by
  intro s'
  obtain ⟨events, hquiet, hedit⟩ := h.perform_edit edited content
  let e₁ : Editor :=
    { (e.setSession (rewritten s content)).arm (rewritten s content) edited .typing with
      outbox := e.outbox ++ events }
  have hsole : e₁.Solitary (rewritten s content) :=
    ⟨h.sessions_setSession rfl, h.shown, h.unqueued⟩
  have hrun : e.run (writes s.id content edited saved) = (e₁.setSession s').arm s' saved .save := by
    have hfirst : (e.perform (.act s.id (.edit edited [.replaceAll content]))).2 = e₁ := hedit
    rw [← hsole.perform_saved saved, ← hfirst]
    rfl
  have honly : ∀ x ∈ e.debouncer.armed, x.1 = s.id := by
    rw [hr.unarmed]
    nofun
  have hedited : e₁.debouncer.armed =
      [(s.id, .after edited (e.debouncer.policy.arm .typing s.tracking.enabled))] :=
    armed_trigger honly edited .typing s.tracking.enabled
  have honly : ∀ x ∈ e₁.debouncer.armed, x.1 = s.id := by
    rw [hedited]
    simp
  have hpolicy₁ : e₁.debouncer.policy = e.debouncer.policy := Debouncer.policy_set _ _ _
  have hsaved : ((e₁.setSession s').arm s' saved .save).debouncer.armed =
      [(s.id, .after saved (e.debouncer.policy.arm .save s.tracking.enabled))] := by
    rw [← hpolicy₁]
    exact armed_trigger honly saved .save s.tracking.enabled
  rw [hrun]
  refine ⟨⟨hsole.sessions_setSession rfl, h.shown, h.unqueued⟩, ⟨hr.free, rfl,
    ⟨_, hsaved, Deadlines.isIdle_after _ _, fun now deadline mode hdue => ?_⟩, fun a ha => ?_⟩,
    events, hquiet, rfl⟩
  · exact mode_of_due?_save (t := s.tracking) hpolicy hdue
  · exact Nat.lt_succ_of_le (hrecorded a ha)

end Editor

end ScriptDesk
