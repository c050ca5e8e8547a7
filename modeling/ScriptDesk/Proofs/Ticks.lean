import Mathlib.Data.List.Nodup
import ScriptDesk.Proofs.Simulation

/-!
# ScriptDesk.Proofs.Ticks

What the passes do moves lanes by steps of `Lane.Advance`. A tick has three
phases, and each of them does one of a few things, which are listed once
(`takeInCompleted_forms`, `startQueued_cases`, `startDue_cases`). That the
phases do no more than this rests on the tables of the editor being in order
(`Editor.Sound`): documents are told apart by their numbers, and nothing is known
of a number that was not given yet.
-/

namespace ScriptDesk.Editor

/-- The tables of the editor are in order. -/
structure Sound (e : Editor) : Prop where
  armed : e.debouncer.Sound
  distinct : e.ids.Nodup
  numbered : ∀ id ∈ e.ids, id.number ≤ e.opened
  /-- Nothing is known of a document before it is opened. -/
  untouched : ∀ id : DocumentId, e.opened < id.number → e.share id = {}

theorem sound_new (config : Config) : (new config).Sound where
  armed := Debouncer.sound_new _
  distinct := .nil
  numbered _ h := by cases h
  untouched _ _ := rfl

theorem Evolves.sound {R : Lane → Lane → Prop} {e e' : Editor} (h : Evolves R e e')
    (hs : e.Sound) : e'.Sound where
  armed := h.armed hs.armed
  distinct := h.ids.nodup hs.distinct
  numbered id hid := by
    rw [h.opened]
    exact hs.numbered id (h.ids.subset hid)
  untouched id hid := by
    rw [h.opened] at hid
    have hnew : id ∉ e.ids := fun hm => Nat.not_le.2 hid (hs.numbered id hm)
    exact h.blank id hnew (hs.untouched id hid)

theorem Sound.eq_of_id_eq {e : Editor} (h : e.Sound) {s t : Session} (hs : s ∈ e.sessions)
    (ht : t ∈ e.sessions) (hid : s.id = t.id) : s = t :=
  List.inj_on_of_nodup_map h.distinct hs ht hid

theorem Sound.session?_of_mem {e : Editor} (h : e.Sound) {s : Session} (hs : s ∈ e.sessions) :
    e.session? s.id = some s := by
  cases hf : e.session? s.id with
  | none => exact absurd (mem_ids hs) (session?_eq_none_iff.1 hf)
  | some t =>
    obtain ⟨ht, hid⟩ := mem_of_session?_eq_some hf
    rw [h.eq_of_id_eq ht hs hid]

theorem Sound.sessions_setSession_self {e : Editor} (h : e.Sound) {s : Session}
    (hs : s ∈ e.sessions) : (e.setSession s).sessions = e.sessions := by
  unfold setSession
  refine (List.map_congr_left fun old hold => ?_).trans (List.map_id _)
  by_cases hid : old.id = s.id
  · rw [if_pos hid, h.eq_of_id_eq hs hold hid.symm, id]
  · rw [if_neg hid, id]

/-! ## What the passes do -/

section Passes

variable {known : Analyzer → Prop}

theorem evolves_finishPass (e : Editor) (analyzer : Analyzer) (h : known analyzer) :
    Evolves (Lane.Advance known) e (e.finishPass analyzer).2 := by
  have heq : (e.finishPass analyzer).2 =
      { e with flight :=
          { e.flight with slot := SingleFlight.finishSlot analyzer e.flight.slot } } :=
    congrArg (fun flight => { e with flight }) (SingleFlight.finish_snd e.flight analyzer)
  have hshare : ∀ id, (e.finishPass analyzer).2.share id =
      { e.share id with slot := SingleFlight.finishSlot analyzer (e.share id).slot } := by
    intro id
    rw [heq]
    simp only [share, SingleFlight.seenBy_finishSlot]
    rfl
  refine ⟨?_, ?_, ?_, ?_, ?_, ?_, ?_⟩
  · rw [heq]; exact List.Sublist.refl _
  · rw [heq]
  · rw [heq]
  · rw [heq]
  · rw [heq]; exact id
  · intro id _ hb
    rw [hshare, hb]
    rfl
  · intro t ht
    rw [heq] at ht
    have hl : (e.finishPass analyzer).2.lane t =
        { e.lane t with slot := SingleFlight.finishSlot analyzer (e.lane t).slot } := by
      simp only [lane, hshare]
      rw [heq]
      rfl
    exact ⟨t, ht, rfl, hl ▸ .single (.finish analyzer h)⟩

/-- Taking in a completion changes its document and the outbox. -/
theorem takeIn_eq {e : Editor} {s : Session} (done : Completion)
    (hs : e.session? done.document = some s) :
    ∃ outbox, (e.takeIn done).2 =
      { e.setSession { s with tracking := (s.tracking.settle done (e.isShown s.id)).2 } with
        outbox } := by
  unfold takeIn
  rw [hs]
  dsimp only
  split
  · unfold publishStatus
    split <;> exact ⟨_, rfl⟩
  · unfold publishStatus
    split <;> exact ⟨_, rfl⟩
  all_goals exact ⟨_, rfl⟩

theorem share_takeIn_of_ne {e : Editor} {id : DocumentId} (done : Completion)
    (h : id ≠ done.document) : (e.takeIn done).2.share id = e.share id := by
  unfold takeIn
  split
  · rfl
  · next s hs =>
    obtain ⟨-, hid⟩ := mem_of_session?_eq_some hs
    rw [← hid] at h
    have hpublish : ∀ (e : Editor) (tracking : Tracking),
        (e.publishStatus { s with tracking }).share id = e.share id :=
      fun _ tracking => share_publishStatus_of_ne (s := { s with tracking }) h
    have hemit : ∀ (e : Editor) (analysis : Analysis),
        (e.emit (.analysisApplied s.id analysis)).share id = e.share id :=
      fun _ _ => share_emit_of_ne h
    dsimp only
    split
    · exact (hpublish _ _).trans (hemit _ _)
    · exact hpublish _ _
    all_goals rfl

/-- The editor after the completed pass has left its place. -/
def freed (e : Editor) : Editor := { e with flight := { e.flight with slot := .free } }

/-- A completion is taken in by the lane of its document. -/
theorem lane_takeIn {e : Editor} {s : Session} (done : Completion)
    (hs : e.freed.session? done.document = some s) :
    (e.freed.takeIn done).2.lane
        { s with tracking := (s.tracking.settle done (e.isShown s.id)).2 } =
      (e.lane s).takeIn done := by
  have hbase : ∀ tracking, (e.freed.setSession { s with tracking }).lane { s with tracking } =
      { (e.lane s).setTracking tracking with slot := .free } := by
    intro tracking
    have hfree : (e.freed.setSession { s with tracking }).flight.slot.seenBy s.id = .free :=
      Slot.seenBy_free s.id
    simp only [lane, share, hfree]
    rfl
  have hsession : (e.lane s).session = s := rfl
  have hshown : (e.lane s).shown = e.freed.isShown s.id := rfl
  have hshown' : e.isShown s.id = e.freed.isShown s.id := rfl
  unfold takeIn Lane.takeIn
  rw [hs, hsession, hshown, hshown']
  dsimp only
  rcases s.tracking.settle done (e.freed.isShown s.id) with ⟨settlement, tracking⟩
  have hpublish : ((e.freed.setSession { s with tracking }).publishStatus { s with tracking }).lane
      { s with tracking } =
        ({ (e.lane s).setTracking tracking with slot := .free } : Lane).publishStatus := by
    rw [lane_publishStatus, hbase]
  cases settlement with
  | applied notify provisional =>
    cases notify with
    | false => exact hpublish
    | true =>
      dsimp only
      cases ha : tracking.analysis with
      | none => exact hpublish
      | some analysis =>
        dsimp only
        rw [lane_publishStatus, lane_emit rfl, hbase]
  | stale => exact hbase tracking
  | closed => exact hbase tracking
  | unrecognized => exact hbase tracking

theorem takeInCompleted_of_finished {e : Editor} {done : Completion}
    (h : e.flight.slot = .finished done) : e.takeInCompleted = e.freed.takeIn done := by
  unfold takeInCompleted
  rw [SingleFlight.collect_of_finished h]
  rfl

theorem takeInCompleted_of_not_finished {e : Editor} (h : ∀ done, e.flight.slot ≠ .finished done) :
    e.takeInCompleted = ({}, e) := by
  unfold takeInCompleted
  rw [SingleFlight.collect_of_not_finished h]

/-- What the first phase of a tick does: it takes in the completion that waits, or
nothing if none does. -/
theorem takeInCompleted_forms (e : Editor) :
    (∃ done, e.flight.slot = .finished done ∧ e.takeInCompleted = e.freed.takeIn done) ∨
      (∀ done, e.flight.slot ≠ .finished done) ∧ e.takeInCompleted = ({}, e) := by
  by_cases hdone : ∃ done, e.flight.slot = .finished done
  · obtain ⟨done, hdone⟩ := hdone
    exact .inl ⟨done, hdone, takeInCompleted_of_finished hdone⟩
  · have hnot : ∀ done, e.flight.slot ≠ .finished done := fun done h => hdone ⟨done, h⟩
    exact .inr ⟨hnot, takeInCompleted_of_not_finished hnot⟩

theorem evolves_takeInCompleted (e : Editor) :
    Evolves (Lane.Advance known) e e.takeInCompleted.2 := by
  rcases e.takeInCompleted_forms with ⟨done, hdone, heq⟩ | ⟨-, heq⟩ <;> rw [heq]
  · have hother : ∀ id, id ≠ done.document → (e.freed.takeIn done).2.share id = e.share id := by
      intro id hne
      have hslot : e.flight.slot.seenBy id = .free := by
        rw [hdone]
        exact Slot.seenBy_of_ne rfl hne
      have hfree : e.freed.flight.slot.seenBy id = .free := Slot.seenBy_free id
      rw [share_takeIn_of_ne done hne]
      simp only [share, hslot, hfree]
      rfl
    cases hs : e.freed.session? done.document with
    | none =>
      have hclosed : done.document ∉ e.ids := session?_eq_none_iff.1 hs
      have htake : (e.freed.takeIn done).2 = e.freed := by
        unfold takeIn
        rw [hs]
      refine .of_unseen (by rw [htake]; rfl) (by rw [htake]; rfl)
        (by rw [htake]; exact .of_eq rfl rfl rfl) ?_ ?_
      · intro id hid hb
        have hseen : e.flight.slot.seenBy id = .free := congrArg Share.slot hb
        have hfree : e.freed.flight.slot.seenBy id = .free := Slot.seenBy_free id
        rw [htake, ← hb]
        simp only [share, hseen, hfree]
        rfl
      · exact fun id hid => hother id fun h => hclosed (h ▸ hid)
    | some s =>
      obtain ⟨hmem, hid⟩ := mem_of_session?_eq_some hs
      obtain ⟨outbox, hout⟩ := takeIn_eq done hs
      have hlane := lane_takeIn done hs
      have hseen : (e.lane s).slot = .finished done := by
        rw [← hdone]
        exact Slot.seenBy_of_document? (by rw [hdone, hid]; rfl)
      refine .of_session { s with tracking := (s.tracking.settle done (e.isShown s.id)).2 } hmem
        rfl (by rw [hout]; rfl) (by rw [hout]; rfl) (by rw [hout]; exact .of_eq rfl rfl rfl)
        (fun id hne => hother id (hid ▸ hne)) ?_
      rw [hlane]
      exact .takeIn done hseen
  · exact .refl _ e

/-- A pass starts on a document whose turn has come. -/
theorem evolves_start_of_free {R : Lane → Lane → Prop} {e : Editor} (e₁ : Editor) {s : Session}
    (mode : Mode) (hs : s ∈ e.sessions) (hfree : e₁.flight.isBusy = false)
    (hsess : e₁.sessions = e.sessions) (hactive : e₁.active = e.active) (hframe : Frame e e₁)
    (hblank : ∀ id ∉ e.ids, e.share id = {} → e₁.share id = {})
    (hshare : ∀ id ∈ e.ids, id ≠ s.id → e₁.share id = e.share id)
    (hR : ∀ task, R (e.lane s) ((e₁.lane s).launch task mode)) :
    Evolves R e (e₁.start s mode).2 := by
  obtain ⟨-, -, hactive', -⟩ := start_keeps e₁ s mode
  obtain ⟨hsess', hlane⟩ := lane_start_of_free hfree s mode
  refine .of_lanes { s with tracking := s.tracking.noteStart mode } hs rfl ?_
    (hframe.start s mode) ?_ ?_ (hlane ▸ hR _)
  · rw [hsess']
    simp only [setSession, hsess]
  · intro id hid hb
    have hne : id ≠ s.id := fun h => hid (h ▸ mem_ids hs)
    rw [share_start_of_ne mode hne, hblank id hid hb]
  · intro t ht hne
    have hl : (e₁.start s mode).2.lane t = e.lane t := by
      simp only [lane, share_start_of_ne mode hne, hshare t.id (mem_ids ht) hne, isShown, hactive',
        hactive]
    rw [hl]

/-- The editor with another queue. -/
def withQueue (e : Editor) (queue : List Queued) : Editor :=
  { e with flight := { e.flight with queue } }

theorem share_withQueue (e : Editor) (queue : List Queued) (id : DocumentId) :
    (e.withQueue queue).share id =
      { e.share id with waiting := (e.withQueue queue).flight.waiting id } := rfl

/-- What the second phase of a tick does: nothing while the place is taken; it
empties a queue of closed documents; or it starts a pass on the first open
document of the queue. -/
theorem startQueued_cases (e : Editor) :
    (e.flight.isBusy = true ∧ e.startQueued.2 = e) ∨
      (e.flight.isBusy = false ∧ (∀ q ∈ e.flight.queue, q.document ∉ e.ids) ∧
        e.startQueued.2 = e.withQueue []) ∨
      ∃ closed q rest s, e.flight.isBusy = false ∧ e.flight.queue = closed ++ q :: rest ∧
        (∀ c ∈ closed, c.document ∉ e.ids) ∧ s ∈ e.sessions ∧ q.document = s.id ∧
        e.startQueued.2 = ((e.withQueue rest).start s
          (if s.tracking.enabled then q.mode else .minimal)).2 := by
  unfold startQueued
  rcases SingleFlight.dequeueOpen_cases e.flight e.isOpen with
    ⟨hbusy, hd⟩ | ⟨hfree, hclosed, hd⟩ | ⟨closed, q, rest, hfree, hqueue, hclosed, hopen, hd⟩
  · rw [hd]
    exact .inl ⟨hbusy, rfl⟩
  · rw [hd]
    exact .inr (.inl ⟨hfree, fun q hq => isOpen_eq_false_iff.1 (hclosed q hq), rfl⟩)
  · unfold isOpen at hopen
    obtain ⟨s, hs⟩ := Option.isSome_iff_exists.1 hopen
    obtain ⟨hmem, hid⟩ := mem_of_session?_eq_some hs
    have hs' : (e.withQueue rest).session? q.document = some s := hs
    refine .inr (.inr ⟨closed, q, rest, s, hfree, hqueue,
      fun c hc => isOpen_eq_false_iff.1 (hclosed c hc), hmem, hid.symm, ?_⟩)
    rw [hd]
    dsimp only
    rw [show ({ e with flight := { e.flight with queue := rest } } : Editor) = e.withQueue rest
      from rfl, hs']

theorem evolves_startQueued (e : Editor) : Evolves (Lane.Advance known) e e.startQueued.2 := by
  rcases e.startQueued_cases with
    ⟨-, heq⟩ | ⟨-, hclosed, heq⟩ | ⟨closed, q, rest, s, hfree, hqueue, hclosed, hmem, hid, heq⟩
  · rw [heq]
    exact .refl _ e
  · -- Only closed documents were queued.
    rw [heq]
    refine .of_unseen rfl rfl (.of_eq rfl rfl rfl) ?_ ?_
    · intro id _ hb
      rw [share_withQueue, hb]
      rfl
    · intro id hid
      have hw : e.flight.waiting id = [] := by
        unfold SingleFlight.waiting
        rw [List.map_eq_nil_iff, List.filter_eq_nil_iff]
        intro q hq hqid
        exact hclosed q hq (of_decide_eq_true hqid ▸ hid)
      rw [share_withQueue]
      exact congrArg (fun waiting => { e.share id with waiting }) hw.symm
  · rw [heq]
    -- To an open document the closed ones in front of it do not matter.
    have hwaiting : ∀ id ∈ e.ids, e.flight.waiting id =
        (if q.document = id then [q.mode] else []) ++ (e.withQueue rest).flight.waiting id := by
      intro id hid
      exact SingleFlight.waiting_of_queue hqueue fun c hc h => hclosed c hc (h ▸ hid)
    refine evolves_start_of_free (e.withQueue rest) _ hmem hfree rfl rfl (.of_eq rfl rfl rfl)
      ?_ ?_ ?_
    · intro id _ hb
      have hnil : e.flight.waiting id = [] := congrArg Share.waiting hb
      have hsub : ((e.withQueue rest).flight.waiting id).Sublist (e.flight.waiting id) :=
        SingleFlight.waiting_sublist (by rw [hqueue]; simp [withQueue]) id
      rw [hnil, List.sublist_nil] at hsub
      rw [share_withQueue, hb, hsub]
    · intro id hidm hne
      have hw := hwaiting id hidm
      rw [if_neg fun h => hne (h.symm.trans hid), List.nil_append] at hw
      rw [share_withQueue, ← hw]
      rfl
    · intro task
      have hw := hwaiting s.id (mem_ids hmem)
      rw [if_pos hid] at hw
      exact .startQueued task hw (slot_lane_of_free hfree s)

theorem share_with_debouncer (e : Editor) (debouncer : Debouncer) (id : DocumentId) :
    ({ e with debouncer } : Editor).share id =
      { e.share id with deadlines := debouncer.deadlines id } := rfl

/-- The editor after a deadline of a document was let through. -/
def afterFiring (e : Editor) (s : Session) (mode : Mode) : Editor :=
  { e with
    debouncer := (e.debouncer.dropClosed e.enabled?).set s.id
      ((e.debouncer.deadlines s.id).afterFiring mode s.tracking.enabled) }

theorem deadlines_afterFiring (e : Editor) (s : Session) (mode : Mode) (id : DocumentId) :
    (e.afterFiring s mode).debouncer.deadlines id =
      if id = s.id then (e.debouncer.deadlines s.id).afterFiring mode s.tracking.enabled
      else (e.debouncer.dropClosed e.enabled?).deadlines id :=
  Debouncer.deadlines_set _ _ _ _

/-- What the third phase of a tick does: it only disarms what is closed, if the
place is taken or nothing is due; or it lets a deadline through, which starts a
pass if the document needs one. -/
theorem startDue_cases {e : Editor} (he : e.debouncer.Sound) (now : Time) :
    ((e.flight.isBusy = false → e.debouncer.due now e.enabled? = []) ∧
        (e.startDue now).2.2 = { e with debouncer := e.debouncer.dropClosed e.enabled? }) ∨
      ∃ s deadline mode, e.flight.isBusy = false ∧ s ∈ e.sessions ∧
        (e.debouncer.deadlines s.id).due? now s.tracking.enabled = some (deadline, mode) ∧
        (e.startDue now).2.2 =
          if s.tracking.needsAnalysis then ((e.afterFiring s mode).start s mode).2
          else e.afterFiring s mode := by
  unfold startDue
  rcases Debouncer.poll_cases he now e.flight.isBusy e.enabled? with
    ⟨hfired, hdeb, hnone⟩ | ⟨deadline, id, mode, enabled, hfree, hen, hdue, hfired, hdeb⟩
  · simp only [hfired, hdeb, Option.bind_none]
    exact .inl ⟨hnone, trivial⟩
  · obtain ⟨s, hs, rfl⟩ := Option.map_eq_some_iff.1 hen
    obtain ⟨hmem, rfl⟩ := mem_of_session?_eq_some hs
    refine .inr ⟨s, deadline, mode, hfree, hmem, hdue, ?_⟩
    have hs' : (e.afterFiring s mode).session? s.id = some s := hs
    simp only [hfired, hdeb, Option.bind_some]
    rw [show ({ e with debouncer := _ } : Editor) = e.afterFiring s mode from rfl, hs',
      Option.map_some]
    dsimp only
    split <;> rfl

/-- Disarming the closed documents is not seen by the open ones. -/
theorem deadlines_dropClosed_of_mem {e : Editor} (h : e.debouncer.Sound) {id : DocumentId}
    (hid : id ∈ e.ids) :
    (e.debouncer.dropClosed e.enabled?).deadlines id = e.debouncer.deadlines id := by
  have hopen : (e.enabled? id).isSome = true := by
    rw [enabled?, Option.isSome_map]
    exact isOpen_iff.2 hid
  rw [Debouncer.deadlines_dropClosed h, if_pos hopen]

theorem deadlines_dropClosed_of_blank {e : Editor} (h : e.debouncer.Sound) {id : DocumentId}
    (hb : e.share id = {}) : (e.debouncer.dropClosed e.enabled?).deadlines id = {} := by
  have hd : e.debouncer.deadlines id = {} := congrArg Share.deadlines hb
  rw [Debouncer.deadlines_dropClosed h, hd, ite_self]

theorem evolves_startDue {e : Editor} (he : e.Sound) (now : Time) :
    Evolves (Lane.Advance known) e (e.startDue now).2.2 := by
  rcases startDue_cases he.armed now with ⟨-, heq⟩ | ⟨s, deadline, mode, hfree, hmem, hdue, heq⟩
  · rw [heq]
    refine .of_unseen rfl rfl ⟨rfl, rfl, rfl, fun h => h.dropClosed _⟩ ?_ ?_
    · intro id _ hb
      rw [share_with_debouncer, deadlines_dropClosed_of_blank he.armed hb, hb]
    · intro id hid
      rw [share_with_debouncer, deadlines_dropClosed_of_mem he.armed hid]
      rfl
  · have hd := e.deadlines_afterFiring s mode
    have hshare : ∀ id, (e.afterFiring s mode).share id =
        { e.share id with deadlines := (e.afterFiring s mode).debouncer.deadlines id } :=
      share_with_debouncer e _
    have hframe : Frame e (e.afterFiring s mode) :=
      ⟨rfl, rfl, Debouncer.policy_set _ _ _, fun h => (h.dropClosed _).set _ _⟩
    have hblank : ∀ id ∉ e.ids, e.share id = {} → (e.afterFiring s mode).share id = {} := by
      intro id hid hb
      have hne : id ≠ s.id := fun h => hid (h ▸ mem_ids hmem)
      rw [hshare, hd, if_neg hne, deadlines_dropClosed_of_blank he.armed hb, hb]
    have hother : ∀ id ∈ e.ids, id ≠ s.id → (e.afterFiring s mode).share id = e.share id := by
      intro id hid hne
      rw [hshare, hd, if_neg hne, deadlines_dropClosed_of_mem he.armed hid]
      rfl
    have hlane : (e.afterFiring s mode).lane s = (e.lane s).fired mode := by
      have hself := hd s.id
      rw [if_pos rfl] at hself
      simp only [lane, hshare, hself]
      rfl
    have hslot := slot_lane_of_free hfree s
    rw [heq]
    split
    · next hn =>
      refine evolves_start_of_free _ mode hmem hfree rfl rfl hframe hblank hother fun task => ?_
      rw [hlane]
      exact .startDue task hdue hn hslot
    · next hn =>
      refine .of_lanes s hmem rfl (he.sessions_setSession_self hmem).symm hframe hblank ?_ ?_
      · intro t ht hne
        have hl : (e.afterFiring s mode).lane t = e.lane t := by
          simp only [lane, hother t.id (mem_ids ht) hne]
          rfl
        rw [hl]
      · rw [hlane]
        exact .upToDate hdue (Bool.eq_false_iff.2 hn) hslot

/-- What a tick reports of completions it learns in its first phase. -/
theorem tick_fst (e : Editor) (now : Time) :
    (e.tick now).1 = { e.takeInCompleted.1 with
      started := (e.tick now).1.started, deferred := (e.tick now).1.deferred } := rfl

theorem tick_snd (e : Editor) (now : Time) :
    (e.tick now).2 = (e.takeInCompleted.2.startQueued.2.startDue now).2.2 := rfl

/-- The tables are in order when the third phase of a tick begins. -/
theorem sound_startQueued {e : Editor} (he : e.Sound) :
    e.takeInCompleted.2.startQueued.2.Sound := by
  have h : Evolves (Lane.Advance fun _ => True) e e.takeInCompleted.2.startQueued.2 :=
    (evolves_takeInCompleted e).trans (evolves_startQueued _)
  exact h.sound he

theorem evolves_tick {e : Editor} (he : e.Sound) (now : Time) :
    Evolves (Lane.Advance known) e (e.tick now).2 := by
  have hqueued : Evolves (Lane.Advance known) e e.takeInCompleted.2.startQueued.2 :=
    (evolves_takeInCompleted e).trans (evolves_startQueued _)
  rw [tick_snd]
  exact hqueued.trans (evolves_startDue (sound_startQueued he) now)

theorem sound_finishPass {e : Editor} (he : e.Sound) (analyzer : Analyzer) :
    (e.finishPass analyzer).2.Sound := by
  have h : Evolves (Lane.Advance fun _ => True) e (e.finishPass analyzer).2 :=
    evolves_finishPass e analyzer trivial
  exact h.sound he

theorem sound_tick {e : Editor} (he : e.Sound) (now : Time) : (e.tick now).2.Sound := by
  have h : Evolves (Lane.Advance fun _ => True) e (e.tick now).2 := evolves_tick he now
  exact h.sound he

end Passes

end ScriptDesk.Editor
