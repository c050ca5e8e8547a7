import ScriptDesk.Proofs.Account

/-!
# ScriptDesk.Proofs.Closed

A closed document is gone. Closing takes it off every table but one: a pass on it
that is under way goes on. Nothing that is done to other documents brings anything
back (`Silent`), its number is not given again (`Editor.Succeeds`), and so all that
can still come of it is that one completion, which finds the document closed.
-/

namespace ScriptDesk.Editor

theorem ne_of_not_mem_ids {e : Editor} {id : DocumentId} (hclosed : id ∉ e.ids) {s : Session}
    (hs : s ∈ e.sessions) : id ≠ s.id := fun heq => hclosed (heq ▸ mem_ids hs)

/-- Of the document nothing is armed or queued, and this is what was told about it. -/
structure Silent (id : DocumentId) (told : List Event) (e : Editor) : Prop where
  deadlines : e.debouncer.deadlines id = {}
  waiting : e.flight.waiting id = []
  told : e.told id = told

namespace Silent

variable {id : DocumentId} {told : List Event} {e e' : Editor}

theorem of_share (h : e.Silent id told) (hshare : e'.share id = e.share id) :
    e'.Silent id told where
  deadlines := (congrArg Share.deadlines hshare).trans h.deadlines
  waiting := (congrArg Share.waiting hshare).trans h.waiting
  told := (congrArg Share.told hshare).trans h.told

theorem withQueue (h : e.Silent id told) {queue : List Queued}
    (hsub : queue.Sublist e.flight.queue) : (e.withQueue queue).Silent id told where
  deadlines := h.deadlines
  waiting := by
    have hw := SingleFlight.waiting_sublist (g := (e.withQueue queue).flight) hsub id
    rw [h.waiting] at hw
    exact List.sublist_nil.1 hw
  told := h.told

theorem finishPass (h : e.Silent id told) (analyzer : Analyzer) :
    (e.finishPass analyzer).2.Silent id told where
  deadlines := h.deadlines
  waiting := by
    rw [(e.finishPass_keeps analyzer).1]
    exact h.waiting
  told := h.told

/-! ### The phases of a tick -/

theorem takeInCompleted (h : e.Silent id told) (hclosed : id ∉ e.ids) :
    e.takeInCompleted.2.Silent id told := by
  rcases e.takeInCompleted_forms with ⟨done, -, heq⟩ | ⟨-, heq⟩ <;> rw [heq]
  · have hfreed : e.freed.Silent id told := ⟨h.deadlines, h.waiting, h.told⟩
    by_cases hid : id = done.document
    · rw [takeIn_of_closed (session?_eq_none_iff.2 (hid ▸ hclosed))]
      exact hfreed
    · exact hfreed.of_share (share_takeIn_of_ne done hid)
  · exact h

theorem startQueued (h : e.Silent id told) (hclosed : id ∉ e.ids) :
    e.startQueued.2.Silent id told := by
  rcases e.startQueued_cases with
    ⟨-, heq⟩ | ⟨-, -, heq⟩ | ⟨closed, q, rest, s, -, hqueue, -, hs, -, heq⟩ <;> rw [heq]
  · exact h
  · exact h.withQueue (List.nil_sublist _)
  · have hne := ne_of_not_mem_ids hclosed hs
    have hsub : rest.Sublist e.flight.queue := by rw [hqueue]; simp
    exact (h.withQueue hsub).of_share (share_start_of_ne _ hne)

theorem startDue (h : e.Silent id told) (hclosed : id ∉ e.ids) (he : e.debouncer.Sound)
    (now : Time) : (e.startDue now).2.2.Silent id told := by
  have hdropped : (e.debouncer.dropClosed e.enabled?).deadlines id = {} := by
    rw [Debouncer.deadlines_dropClosed he, h.deadlines, ite_self]
  rcases startDue_cases he now with ⟨-, heq⟩ | ⟨s, deadline, mode, -, hs, -, heq⟩ <;> rw [heq]
  · exact ⟨hdropped, h.waiting, h.told⟩
  · have hne := ne_of_not_mem_ids hclosed hs
    have hfired : (e.afterFiring s mode).Silent id told :=
      ⟨by rw [deadlines_afterFiring, if_neg hne, hdropped], h.waiting, h.told⟩
    split
    · exact hfired.of_share (share_start_of_ne _ hne)
    · exact hfired

end Silent

/-- The document was closed: its number was given, and it is not open. -/
structure Gone (id : DocumentId) (told : List Event) (e : Editor) : Prop
    extends Silent id told e where
  closed : id ∉ e.ids
  given : id.number ≤ e.opened

namespace Gone

variable {id : DocumentId} {told : List Event} {e : Editor}

theorem silent_tick (h : e.Gone id told) (he : e.Sound) (now : Time) :
    (e.tick now).2.Silent id told := by
  have hclosed : id ∉ e.takeInCompleted.2.ids := by
    rw [(Tells.takeInCompleted e).ids]
    exact h.closed
  have hclosed' : id ∉ e.takeInCompleted.2.startQueued.2.ids := by
    rw [(Tells.startQueued _).ids]
    exact hclosed
  rw [tick_snd]
  exact ((h.takeInCompleted h.closed).startQueued hclosed).startDue hclosed'
    (sound_startQueued he).armed now

theorem silent_perform (h : e.Gone id told) (he : e.Sound) (c : Command) :
    (e.perform c).2.Silent id told := by
  cases c with
  | openDocument path text =>
    have hne : id ≠ ⟨e.opened + 1⟩ := by
      intro hnew
      have hgiven := h.given
      rw [hnew] at hgiven
      exact Nat.not_succ_le_self _ hgiven
    exact h.of_share (share_openDocument_of_ne path text hne)
  | act other action =>
    unfold perform
    dsimp only
    split
    · next s hs =>
      have hne := ne_of_not_mem_ids h.closed (mem_of_session?_eq_some hs).1
      exact h.of_share (share_act_of_ne e action hne)
    · exact h.toSilent
  | finishPass analyzer => exact h.finishPass analyzer
  | tick now => exact h.silent_tick he now

theorem perform (h : e.Gone id told) (he : e.Sound) (c : Command) :
    (e.perform c).2.Gone id told where
  toSilent := h.silent_perform he c
  closed := (Succeeds.perform he c).not_mem_ids h.given h.closed
  given := Nat.le_trans h.given (Succeeds.perform he c).opened

theorem run (h : e.Gone id told) (he : e.Sound) (commands : List Command) :
    (e.run commands).Gone id told :=
  (holds_run (fun _ c hs hg => hg.perform hs c) he h commands).2

end Gone

/-- Closing a document takes it off all tables, whatever is on them. -/
theorem gone_close {e : Editor} (he : e.Sound) {s : Session} (hs : s ∈ e.sessions) :
    (e.close s).Gone s.id (e.told s.id) where
  deadlines := (Debouncer.deadlines_cancel _ _ _).trans (if_pos rfl)
  waiting := (SingleFlight.waiting_forget _ _ _).trans (if_pos rfl)
  told := rfl
  closed := by simp [ids, close]
  given := he.numbered _ (mem_ids hs)

/-! ## What comes after -/

/-- The outbox only grows. -/
theorem outbox_run {e : Editor} (he : e.Sound) (commands : List Command) :
    e.outbox <+: (e.run commands).outbox := by
  refine (holds_run (P := fun e' => e.outbox <+: e'.outbox) (fun e' c hs h => ?_) he
    (List.prefix_refl _) commands).2
  obtain ⟨e₁, hout, -, htells⟩ := tells_perform hs c
  obtain ⟨new, hnew, -⟩ := htells.events
  rw [hnew, hout]
  exact h.trans (List.prefix_append _ _)

/-- Of a document that is gone no pass starts. -/
theorem Gone.started {id : DocumentId} {told : List Event} {e : Editor} (h : e.Gone id told)
    (he : e.Sound) (commands : List Command) : ∀ p ∈ e.started commands, p.document ≠ id := by
  intro p hp hdocument
  obtain ⟨before, c, after, -, hc⟩ := exists_of_mem_trace hp
  obtain ⟨s, hs, -, heq⟩ := session_of_starts? (he.run before) (Option.mem_toList.1 hc)
  have hgone := (h.run he before).perform (he.run before) c
  refine ne_of_not_mem_ids hgone.closed hs ?_
  rw [← hdocument, heq]
  rfl

/-- Of the document, which is closed in `e`, nothing comes up in the run. -/
structure StaysGone (id : DocumentId) (e : Editor) (commands : List Command) : Prop where
  /-- No pass on it starts. -/
  passes : ∀ p ∈ e.started commands, p.document ≠ id
  /-- Nothing is told about it. -/
  events : ∃ new, (e.run commands).outbox = e.outbox ++ new ∧ ∀ event ∈ new, event.document ≠ id
  deadlines : ∀ x ∈ (e.run commands).debouncer.armed, x.1 ≠ id
  queue : ∀ q ∈ (e.run commands).flight.queue, q.document ≠ id
  notShown : (e.run commands).active ≠ some id
  refused : ∀ action,
    (e.run commands).perform (.act id action) = (.unknownDocument id, e.run commands)
  /-- If a pass on it was under way, that pass is the one that is completed, or it is
  still in the place. -/
  once : e.flight.inFlight?.toList.filter (·.1 = id) =
    ((e.completed commands).map Completion.subject).filter (·.1 = id) ++
      (e.run commands).flight.inFlight?.toList.filter (·.1 = id)
  /-- Taking in its completion frees the place and changes nothing else, -/
  completion : ∀ done, (e.run commands).flight.slot = .finished done → done.document = id →
    (e.run commands).takeInCompleted = ({ closed := 1 }, (e.run commands).freed)
  /-- and the tick reports just that. -/
  report : ∀ done, (e.run commands).flight.slot = .finished done → done.document = id →
    ∀ now, ∃ started deferred,
      ((e.run commands).tick now).1 = { closed := 1, started, deferred }

theorem Gone.staysGone {id : DocumentId} {told : List Event} {e : Editor} (h : e.Gone id told)
    (he : e.Sound) (commands : List Command) (hactive : (e.run commands).ActiveOpen) :
    StaysGone id e commands := by
  have hgone := h.run he commands
  have hsound := he.run commands
  have hsession := session?_eq_none_iff.2 hgone.closed
  have hcompletion : ∀ done, (e.run commands).flight.slot = .finished done → done.document = id →
      (e.run commands).takeInCompleted = ({ closed := 1 }, (e.run commands).freed) := by
    rintro done hslot rfl
    rw [takeInCompleted_of_finished hslot]
    exact takeIn_of_closed hsession
  refine
    { passes := h.started he commands, events := ?_, deadlines := ?_, queue := ?_,
      notShown := fun hshown => hgone.closed (hactive id hshown),
      refused := fun action => perform_act_of_not_open action hsession,
      once := ?_, completion := hcompletion, report := fun done hslot hdone now => ?_ }
  · obtain ⟨new, hnew⟩ := outbox_run he commands
    refine ⟨new, hnew.symm, fun event hevent hdocument => ?_⟩
    have htold : (e.run commands).told id = e.told id ++ new.filter (·.document = id) := by
      rw [Editor.told, ← hnew, List.filter_append]
      rfl
    rw [hgone.told, h.told, List.self_eq_append_right, List.filter_eq_nil_iff] at htold
    exact htold event hevent (decide_eq_true hdocument)
  · rintro x hx rfl
    have hidle := hsound.armed.armed x hx
    rw [← hsound.armed.deadlines_of_mem hx, hgone.deadlines] at hidle
    contradiction
  · rintro q hq rfl
    have hwaits := SingleFlight.mem_waiting_iff.2 hq
    rw [hgone.waiting] at hwaits
    contradiction
  · have hrun := congrArg (List.filter (·.1 = id)) (inFlight?_run he commands)
    have hnone : ((e.started commands).map Snapshot.subject).filter (·.1 = id) = [] := by
      simpa [Snapshot.subject] using h.started he commands
    rwa [List.filter_append, List.filter_append, hnone, List.append_nil] at hrun
  · have hreport := (e.run commands).tick_fst now
    rw [hcompletion done hslot hdone] at hreport
    exact ⟨_, _, hreport⟩

/-- What closing a document leads to, if there was such a document. -/
theorem perform_close {e : Editor} {id : DocumentId}
    (h : (e.perform (.act id .close)).1 = .reply .done) :
    ∃ s ∈ e.sessions, s.id = id ∧ (e.perform (.act id .close)).2 = e.close s := by
  cases hs : e.session? id with
  | none => simp [perform_act_of_not_open _ hs] at h
  | some s =>
    obtain ⟨hmem, hid⟩ := mem_of_session?_eq_some hs
    exact ⟨s, hmem, hid, by simp [perform, hs, act]⟩

/-- A document that was closed is gone for good, whatever was armed, queued, under way
or on show when it was closed. -/
theorem closed_is_gone (config : Config) (before : List Command) (id : DocumentId)
    (h : (((new config).run before).perform (.act id .close)).1 = .reply .done)
    (after : List Command) :
    StaysGone id (((new config).run before).perform (.act id .close)).2 after := by
  have he := sound_run config before
  obtain ⟨s, hs, rfl, hclose⟩ := perform_close h
  have hactive := activeOpen_run config (before ++ .act s.id .close :: after)
  rw [run_append, run_cons] at hactive
  have hgone := gone_close he hs
  rw [← hclose] at hgone
  exact hgone.staysGone (sound_perform he _) after hactive

/-- After these commands the document is shown, changed, armed and queued, and a pass on
it is under way. -/
def onAllTables : List Command :=
  [.openDocument none "", .act ⟨1⟩ .force, .act ⟨1⟩ (.edit 0 [])]

theorem closed_is_gone_mid_pass :
    ((new {}).run onAllTables).active = some ⟨1⟩ ∧
      ((new {}).run onAllTables).flight.isQueued ⟨1⟩ = true ∧
      ((new {}).run onAllTables).debouncer.isArmed ⟨1⟩ = true ∧
      ((new {}).run onAllTables).flight.inFlight? = some (⟨1⟩, 0, .full) ∧
      StaysGone ⟨1⟩ (((new {}).run onAllTables).perform (.act ⟨1⟩ .close)).2
        [.finishPass builtinAnalyzer, .tick 0] ∧
      ((((new {}).run onAllTables).perform (.act ⟨1⟩ .close)).2.run
        [.finishPass builtinAnalyzer]).takeInCompleted.1 = { closed := 1 } := by
  have hgone := closed_is_gone {} onAllTables ⟨1⟩ (by decide)
  have hcompletion := (hgone [.finishPass builtinAnalyzer]).completion _ rfl rfl
  exact ⟨by decide, by decide, by decide, by decide, hgone _, congrArg Prod.fst hcompletion⟩

end ScriptDesk.Editor
