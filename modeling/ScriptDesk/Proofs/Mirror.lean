import ScriptDesk.Proofs.Runs

/-!
# ScriptDesk.Proofs.Mirror

The surface mirrors the document that is shown. What it was told last about that
document is what is kept about it: the analysis on record, the status, and what
can be reached in the history. A document that is hidden may fall behind with the
first two; it is marked by `viewsStale` if its analysis does, and catches up when
it is shown.
-/

namespace ScriptDesk

/-! ## What was told last -/

def Event.analysis? : Event → Option Analysis
  | .analysisApplied _ analysis => some analysis
  | _ => none

def Event.status? : Event → Option Status
  | .statusChanged _ status => some status
  | _ => none

def Event.affordances? : Event → Option Affordances
  | .affordancesChanged _ affordances => some affordances
  | _ => none

/-- The last of some events that tells something of one kind. -/
def last? {α : Type} (kind : Event → Option α) (events : List Event) : Option α :=
  events.reverse.findSome? kind

theorem last?_append {α : Type} (kind : Event → Option α) (events : List Event) (event : Event) :
    last? kind (events ++ [event]) = (kind event).or (last? kind events) := by
  unfold last?
  rw [List.reverse_append, List.reverse_singleton, List.singleton_append, List.findSome?_cons]
  cases kind event <;> rfl

/-- Nothing of a kind was told last exactly if nothing of it was told. -/
theorem last?_eq_none_iff {α : Type} {kind : Event → Option α} {events : List Event} :
    last? kind events = none ↔ ∀ event ∈ events, kind event = none := by
  simp [last?]

/-- What becomes of what is kept about a document when a completion is taken in. -/
theorem Tracking.settle_forms (t : Tracking) (done : Completion) (shown : Bool) :
    (∃ inFlight, t.settle done shown = (.unrecognized, { t with inFlight })) ∨
      (∃ inFlight, t.settle done shown = (.stale, { t with inFlight })) ∨
      ∃ inFlight provisional, t.settle done shown =
        (.applied shown provisional,
          ({ t with inFlight } : Tracking).apply ⟨done.version, done.mode⟩ done.outcome shown) := by
  obtain ⟨inFlight, hend⟩ := t.noteEnd_eq done.version
  rcases t.settle_outcomes done shown with ⟨-, heq⟩ | ⟨-, -, heq⟩ | ⟨-, -, heq⟩
  · exact .inl ⟨t.inFlight, heq⟩
  · exact .inr (.inl ⟨inFlight, hend ▸ heq⟩)
  · exact .inr (.inr ⟨inFlight, _, hend ▸ heq⟩)

theorem Tracking.shown_of_notify {t : Tracking} {done : Completion} {shown provisional : Bool}
    (h : (t.settle done shown).1 = .applied true provisional) : shown = true := by
  rcases t.settle_forms done shown with ⟨_, hs⟩ | ⟨_, hs⟩ | ⟨_, _, hs⟩ <;> rw [hs] at h
  · contradiction
  · contradiction
  · exact (Settlement.applied.inj h).1

namespace History

theorem land_eq_of_none {h : History} {current last : Nat} (hn : (h.land current last).1 = none) :
    (h.land current last).2 = h := by
  unfold land at hn ⊢
  cases hs : h.slots[current]? with
  | none => rfl
  | some position =>
    rw [hs] at hn
    contradiction

/-- A step back that leads nowhere changes nothing. -/
theorem back_eq_of_none {h : History} (hn : h.back.1 = none) : h.back.2 = h := by
  rcases hp : h.pointers with _ | ⟨_ | current, last⟩ <;> simp only [back, hp] at hn ⊢
  exact land_eq_of_none hn

/-- A step forward that leads nowhere changes nothing. -/
theorem forward_eq_of_none {h : History} (hn : h.forward.1 = none) : h.forward.2 = h := by
  rcases hp : h.pointers with _ | ⟨current, last⟩ <;> simp only [forward, hp] at hn ⊢
  by_cases hlt : current < last
  · rw [if_pos hlt] at hn ⊢
    exact land_eq_of_none hn
  · rw [if_neg hlt]

end History

namespace Lane

/-- The views of the document show the analysis on record, or are known to be
stale. -/
structure ViewsTold (l : Lane) : Prop where
  fresh : l.shown = true → l.session.tracking.viewsStale = false
  analysis : l.session.tracking.viewsStale = false →
    last? Event.analysis? l.told = l.session.tracking.analysis
  recorded : l.session.tracking.viewsStale = true → l.session.tracking.analysis.isSome = true

/-- While the document is shown, its status is the one told last. -/
def StatusTold (l : Lane) : Prop :=
  l.shown = true → (last? Event.status? l.told).getD .idle = l.session.tracking.status

/-- The affordances of the document are the ones told last. -/
def AffordancesTold (l : Lane) : Prop :=
  (last? Event.affordances? l.told).getD ⟨false, false⟩ = l.session.history.affordances

/-- The surface was told what it has to know about the document. -/
structure Mirrored (l : Lane) : Prop where
  views : l.ViewsTold
  status : l.StatusTold
  affordances : l.AffordancesTold

variable {l l' : Lane}

@[simp] theorem told_tell (l : Lane) (event : Event) : (l.tell event).told = l.told ++ [event] :=
  rfl

theorem ViewsTold.of_eq (h : l.ViewsTold) (hs : l'.shown = l.shown)
    (hv : l'.session.tracking.viewsStale = l.session.tracking.viewsStale)
    (ha : l'.session.tracking.analysis = l.session.tracking.analysis)
    (ht : last? Event.analysis? l'.told = last? Event.analysis? l.told) : l'.ViewsTold where
  fresh hs' := by rw [hv]; exact h.fresh (hs ▸ hs')
  analysis hv' := by rw [ht, ha]; exact h.analysis (hv ▸ hv')
  recorded hv' := by rw [ha]; exact h.recorded (hv ▸ hv')

/-- Nothing that is told about the document has changed. -/
theorem Mirrored.of_eq (h : l.Mirrored) (hs : l'.shown = l.shown) (ht : l'.told = l.told)
    (hv : l'.session.tracking.viewsStale = l.session.tracking.viewsStale)
    (ha : l'.session.tracking.analysis = l.session.tracking.analysis)
    (hst : l'.session.tracking.status = l.session.tracking.status)
    (hh : l'.session.history.affordances = l.session.history.affordances) : l'.Mirrored where
  views := h.views.of_eq hs hv ha (by rw [ht])
  status := by
    unfold StatusTold
    rw [hs, ht, hst]
    exact h.status
  affordances := by
    unfold AffordancesTold
    rw [ht, hh]
    exact h.affordances

/-- Telling the status leaves nothing to tell but what had to be told before. -/
theorem Mirrored.tellStatus (hv : l.ViewsTold) (ha : l.AffordancesTold) :
    (l.tell (.statusChanged l.session.id l.session.tracking.status)).Mirrored := by
  refine ⟨hv.of_eq rfl rfl rfl ?_, fun _ => ?_, ?_⟩
  · rw [told_tell, last?_append]
    rfl
  · rw [told_tell, last?_append]
    rfl
  · unfold AffordancesTold
    rw [told_tell, last?_append]
    exact ha

theorem Mirrored.publishStatus (hv : l.ViewsTold) (ha : l.AffordancesTold) :
    l.publishStatus.Mirrored := by
  unfold Lane.publishStatus
  split
  · exact .tellStatus hv ha
  · next hs => exact ⟨hv, fun hs' => absurd hs' hs, ha⟩

/-- Telling the analysis on record lets the views show it. -/
theorem ViewsTold.tellAnalysis {analysis : Analysis}
    (hfresh : l.session.tracking.viewsStale = false)
    (ha : l.session.tracking.analysis = some analysis) :
    (l.tell (.analysisApplied l.session.id analysis)).ViewsTold where
  fresh _ := hfresh
  analysis _ := by
    rw [told_tell, last?_append, session_tell, ha]
    rfl
  recorded hstale := by
    rw [session_tell, hfresh] at hstale
    contradiction

/-- Telling the affordances leaves the views and the status as they were told. -/
theorem Mirrored.tellAffordances (hv : l.ViewsTold) (hs : l.StatusTold) :
    (l.tell (.affordancesChanged l.session.id l.session.history.affordances)).Mirrored := by
  refine ⟨hv.of_eq rfl rfl rfl ?_, fun hshown => ?_, ?_⟩
  · rw [told_tell, last?_append]
    rfl
  · rw [told_tell, last?_append]
    exact hs hshown
  · unfold AffordancesTold
    rw [told_tell, last?_append]
    rfl

/-! ## Steps -/

theorem Mirrored.launch (h : l.Mirrored) (task : Nat) (mode : Mode) :
    (l.launch task mode).Mirrored := by
  unfold Lane.launch
  dsimp only
  split
  · next hst => exact h.of_eq rfl rfl rfl rfl hst rfl
  · exact .publishStatus (h.views.of_eq rfl rfl rfl rfl) h.affordances

theorem Requests.mirrored {mode : Mode} (hreq : Requests mode l l') (h : l.Mirrored) :
    l'.Mirrored := by
  cases hreq with
  | started task _ => exact h.launch task mode
  | queued => exact h.of_eq rfl rfl rfl rfl rfl rfl

theorem Opened.mirrored {config : Config} (h : Opened config l) : l.Mirrored := by
  obtain ⟨id, path, text, shown, hreq⟩ := h
  exact hreq.mirrored ⟨⟨fun _ => rfl, fun _ => rfl, nofun⟩, fun _ => rfl, rfl⟩

theorem mirrored_edit (h : l.Mirrored) (policy : Policy) (now : Time) (edits : List TextEdit) :
    (l.edit policy now edits).Mirrored := by
  unfold edit
  dsimp only
  split
  · next hst => exact h.of_eq rfl rfl rfl rfl hst.symm rfl
  · exact .publishStatus (h.views.of_eq rfl rfl rfl rfl) h.affordances

theorem mirrored_forced (h : l.Mirrored) : l.forced.Mirrored :=
  h.of_eq rfl rfl rfl rfl rfl rfl

theorem mirrored_setEnabled (h : l.Mirrored) (on : Bool) :
    (l.setTracking (l.session.tracking.setEnabled on)).Mirrored := by
  unfold Tracking.setEnabled
  split
  · exact h
  · exact h.of_eq rfl rfl rfl rfl rfl rfl

/-- When a document is shown, the surface is told of the analysis that it missed,
of the status and of the affordances. -/
theorem mirrored_activate (h : l.Mirrored) : l.activate.Mirrored := by
  let seen : Lane :=
    { l.setTracking { l.session.tracking with viewsStale := false } with shown := true }
  have htold : ∀ told : Lane, told.session = seen.session → told.ViewsTold →
      told.AffordancesTold →
      ((told.tell (.statusChanged l.session.id l.session.tracking.status)).tell
        (.affordancesChanged l.session.id l.session.history.affordances)).Mirrored := by
    intro told hsession hv ha
    have hst := Mirrored.tellStatus hv ha
    have haff := Mirrored.tellAffordances hst.views hst.status
    rw [session_tell, hsession] at haff
    exact haff
  cases hv : l.session.tracking.viewsStale with
  | false =>
    have hviews : seen.ViewsTold := ⟨fun _ => rfl, fun _ => h.views.analysis hv, nofun⟩
    rw [activate, tellMissed, hv]
    exact htold seen rfl hviews h.affordances
  | true =>
    obtain ⟨analysis, ha⟩ := Option.isSome_iff_exists.1 (h.views.recorded hv)
    rw [activate, tellMissed, hv, ha]
    refine htold (seen.tell (.analysisApplied l.session.id analysis)) rfl
      (.tellAnalysis (l := seen) rfl ha) ?_
    unfold AffordancesTold
    rw [told_tell, last?_append]
    exact h.affordances

theorem mirrored_moveCaret (h : l.Mirrored) (position : Position) :
    (l.moveCaret position).Mirrored := by
  unfold moveCaret
  dsimp only
  split
  · next ha => exact h.of_eq rfl rfl rfl rfl rfl ha
  · let moved := l.setHistory (l.session.history.record position).2
    exact Mirrored.tellAffordances (l := moved) (h.views.of_eq rfl rfl rfl rfl) h.status

/-- A step in the history tells the affordances, or leads nowhere. -/
theorem mirrored_replay (h : l.Mirrored) {target : Option Position} {history : History}
    (hnone : target = none → history = l.session.history) :
    (l.replay target history).Mirrored := by
  unfold replay
  dsimp only
  cases target with
  | none => exact h.of_eq rfl rfl rfl rfl rfl (congrArg History.affordances (hnone rfl))
  | some position =>
    let jumped := (l.setHistory history).tell (.jump l.session.id position false)
    have hviews : jumped.ViewsTold := h.views.of_eq rfl rfl rfl (last?_append _ _ _)
    have hstatus : jumped.StatusTold := by
      intro hs
      rw [told_tell, last?_append]
      exact h.status hs
    exact Mirrored.tellAffordances hviews hstatus

theorem Mirrored.act {policy : Policy} (h : l.Mirrored) (hact : Act policy l l') :
    l'.Mirrored := by
  cases hact with
  | edit now edits => exact mirrored_edit h policy now edits
  | saved now => exact h.of_eq rfl rfl rfl rfl rfl rfl
  | structural now => exact h.of_eq rfl rfl rfl rfl rfl rfl
  | force hreq => exact hreq.mirrored (mirrored_forced h)
  | enable on hne hreq => exact hreq.mirrored (mirrored_forced (mirrored_setEnabled h on))
  | activate => exact mirrored_activate h
  | hide =>
    exact ⟨⟨nofun, h.views.analysis, h.views.recorded⟩, nofun, h.affordances⟩
  | moveCaret position => exact mirrored_moveCaret h position
  | goBack => exact mirrored_replay h History.back_eq_of_none
  | goForward => exact mirrored_replay h History.forward_eq_of_none
  | markNext nextMove => exact h.of_eq rfl rfl rfl rfl rfl rfl
  | setRecording on => exact h.of_eq rfl rfl rfl rfl rfl rfl

theorem takeIn_of_applied {done : Completion} {provisional : Bool} {tracking : Tracking}
    {analysis : Analysis} (ha : tracking.analysis = some analysis)
    (hsettle : l.session.tracking.settle done l.shown = (.applied l.shown provisional, tracking)) :
    l.takeIn done =
      if l.shown then
        (({ l.setTracking tracking with slot := .free } : Lane).tell
          (.analysisApplied l.session.id analysis)).publishStatus
      else ({ l.setTracking tracking with slot := .free } : Lane).publishStatus := by
  unfold takeIn
  rw [hsettle]
  dsimp only
  rw [ha]
  cases l.shown <;> rfl

/-- A completion that goes on record is told to the views if they are shown, and
makes them stale otherwise. -/
theorem mirrored_takeIn (h : l.Mirrored) (done : Completion) : (l.takeIn done).Mirrored := by
  rcases Tracking.settle_forms l.session.tracking done l.shown with
    ⟨inFlight, hsettle⟩ | ⟨inFlight, hsettle⟩ | ⟨inFlight, provisional, hsettle⟩
  · unfold takeIn
    rw [hsettle]
    exact h.of_eq rfl rfl rfl rfl rfl rfl
  · unfold takeIn
    rw [hsettle]
    exact h.of_eq rfl rfl rfl rfl rfl rfl
  · let tracking := ({ l.session.tracking with inFlight } : Tracking).apply
      ⟨done.version, done.mode⟩ done.outcome l.shown
    let taken : Lane := { l.setTracking tracking with slot := .free }
    have hstale : tracking.viewsStale = !l.shown := rfl
    rw [takeIn_of_applied (show tracking.analysis = some _ from rfl) hsettle]
    split
    · next hs =>
      rw [hs] at hstale
      refine .publishStatus (.tellAnalysis (l := taken) hstale rfl) ?_
      unfold AffordancesTold
      rw [told_tell, last?_append]
      exact h.affordances
    · next hs =>
      have hs : l.shown = false := by simpa using hs
      rw [hs] at hstale
      have hviews : taken.ViewsTold := by
        refine ⟨fun hs' => ?_, fun hv => ?_, fun _ => rfl⟩
        · rw [show taken.shown = l.shown from rfl, hs] at hs'
          contradiction
        · rw [show taken.session.tracking = tracking from rfl, hstale] at hv
          contradiction
      exact .publishStatus hviews h.affordances

theorem Mirrored.advance {known : Analyzer → Prop} (h : l.Mirrored) (hadv : Advance known l l') :
    l'.Mirrored := by
  cases hadv with
  | finish analyzer _ => exact h.of_eq rfl rfl rfl rfl rfl rfl
  | takeIn done _ => exact mirrored_takeIn h done
  | startQueued task _ _ =>
    refine Mirrored.launch ?_ task _
    exact h.of_eq rfl rfl rfl rfl rfl rfl
  | startDue task _ _ _ =>
    refine Mirrored.launch ?_ task _
    exact h.of_eq rfl rfl rfl rfl rfl rfl
  | upToDate _ _ _ => exact h.of_eq rfl rfl rfl rfl rfl rfl

theorem Mirrored.step {policy : Policy} {known : Analyzer → Prop} (h : l.Mirrored)
    (hstep : Step policy known l l') : l'.Mirrored := by
  cases hstep with
  | act hact => exact h.act hact
  | advance hadv => exact h.advance hadv

end Lane

/-! ## Whom it is told of -/

/-- The event is told of a document only while it is shown. -/
def Event.isOfShown : Event → Bool
  | .analysisApplied _ _ | .statusChanged _ _ => true
  | _ => false

namespace Editor

/-- On the way from `e` to `e'` no document is opened, closed or shown, and analyses
and statuses are told of the document that is shown only. -/
structure Tells (e e' : Editor) : Prop where
  ids : e'.ids = e.ids
  active : e'.active = e.active
  events : ∃ new, e'.outbox = e.outbox ++ new ∧
    ∀ event ∈ new, event.isOfShown = true → e.active = some event.document

namespace Tells

variable {e e' e'' : Editor}

theorem of_eq (hids : e'.ids = e.ids) (hactive : e'.active = e.active)
    (hout : e'.outbox = e.outbox) : Tells e e' :=
  ⟨hids, hactive, [], by rw [hout, List.append_nil], nofun⟩

theorem refl (e : Editor) : Tells e e := .of_eq rfl rfl rfl

theorem trans (h : Tells e e') (h' : Tells e' e'') : Tells e e'' where
  ids := h'.ids.trans h.ids
  active := h'.active.trans h.active
  events := by
    obtain ⟨new, hout, hnew⟩ := h.events
    obtain ⟨new', hout', hnew'⟩ := h'.events
    refine ⟨new ++ new', by rw [hout', hout, List.append_assoc], fun event hm hs => ?_⟩
    rcases List.mem_append.1 hm with hm | hm
    · exact hnew event hm hs
    · rw [← h.active]
      exact hnew' event hm hs

theorem emit (e : Editor) {event : Event}
    (h : event.isOfShown = true → e.active = some event.document) : Tells e (e.emit event) :=
  ⟨rfl, rfl, [event], rfl, fun _ hm => List.mem_singleton.1 hm ▸ h⟩

theorem setSession (e : Editor) (s : Session) : Tells e (e.setSession s) :=
  .of_eq (ids_setSession e s) rfl rfl

theorem publishStatus (e : Editor) (s : Session) : Tells e (e.publishStatus s) := by
  unfold Editor.publishStatus
  split
  · next h => exact .emit e fun _ => of_decide_eq_true h
  · exact .refl e

theorem start (e : Editor) (s : Session) (mode : Mode) : Tells e (e.start s mode).2 := by
  cases hb : e.flight.isBusy with
  | true =>
    rw [start_of_busy hb]
    exact .of_eq rfl rfl rfl
  | false =>
    rw [start_of_free hb]
    have hlaunch : Tells e
        ({ e with flight := e.flight.launch (s.snapshot mode) }.setSession
          { s with tracking := s.tracking.noteStart mode }) :=
      .of_eq (ids_setSession e { s with tracking := s.tracking.noteStart mode }) rfl rfl
    dsimp only
    split
    · exact hlaunch
    · exact hlaunch.trans (.publishStatus _ _)

/-! ### What is done to a document -/

theorem edit (e : Editor) (s : Session) (now : Time) (edits : List TextEdit) :
    Tells e (e.edit s now edits).2 := by
  let edited : Session :=
    { s with
      text := TextEdit.applyAll s.text edits
      modified := true
      tracking := s.tracking.noteEdit }
  have harm : Tells e ((e.setSession edited).arm edited now .typing) :=
    .of_eq (ids_setSession e edited) rfl rfl
  unfold Editor.edit
  dsimp only
  split
  · exact harm
  · exact harm.trans (.publishStatus _ _)

theorem force (e : Editor) (s : Session) : Tells e (e.force s) := by
  have hdirty : Tells e
      { e.setSession { s with tracking := s.tracking.invalidate } with
        debouncer := e.debouncer.cancel s.id } :=
    .of_eq (ids_setSession e { s with tracking := s.tracking.invalidate }) rfl rfl
  exact hdirty.trans (.start _ _ _)

theorem enable (e : Editor) (s : Session) (on : Bool) : Tells e (e.enable s on) := by
  unfold Editor.enable
  split
  · exact .refl e
  · exact (Tells.setSession e _).trans (.force _ _)

theorem moveCaret (e : Editor) (s : Session) (position : Position) :
    Tells e (e.moveCaret s position).2 := by
  unfold Editor.moveCaret
  dsimp only
  split
  · exact .setSession e _
  · exact (Tells.setSession e _).trans (.emit _ (by nofun))

theorem replay (e : Editor) (s : Session) (target : Option Position) (history : History) :
    Tells e (e.replay s target history) := by
  unfold Editor.replay
  cases target with
  | none => exact .setSession e _
  | some position =>
    exact ((Tells.setSession e _).trans (.emit _ (by nofun))).trans (.emit _ (by nofun))

/-! ### What the passes do -/

theorem takeIn (e : Editor) (done : Completion) : Tells e (e.takeIn done).2 := by
  unfold Editor.takeIn
  split
  · exact .refl e
  · next s hs =>
    have hset :=
      Tells.setSession e { s with tracking := (s.tracking.settle done (e.isShown s.id)).2 }
    dsimp only
    split
    · next hnotify _ =>
      -- The views are told only if they are shown.
      have hshown : e.isShown s.id = true := Tracking.shown_of_notify hnotify
      have hactive : e.active = some s.id := of_decide_eq_true hshown
      have hemit : ∀ e' : Editor, Tells e e' → ∀ analysis,
          Tells e (e'.emit (.analysisApplied s.id analysis)) :=
        fun e' h analysis => h.trans (.emit e' fun _ => h.active.trans hactive)
      exact (hemit _ hset _).trans (.publishStatus _ _)
    · exact hset.trans (.publishStatus _ _)
    all_goals exact hset

theorem takeInCompleted (e : Editor) : Tells e e.takeInCompleted.2 := by
  have hfreed : Tells e e.freed := .of_eq rfl rfl rfl
  rcases e.takeInCompleted_forms with ⟨done, -, heq⟩ | ⟨-, heq⟩ <;> rw [heq]
  · exact hfreed.trans (.takeIn _ done)
  · exact .refl e

theorem startQueued (e : Editor) : Tells e e.startQueued.2 := by
  have hqueue : ∀ queue, Tells e (e.withQueue queue) := fun _ => .of_eq rfl rfl rfl
  rcases e.startQueued_cases with ⟨-, heq⟩ | ⟨-, -, heq⟩ | ⟨_, _, rest, s, -, -, -, -, -, heq⟩
  · rw [heq]
    exact .refl e
  · rw [heq]
    exact hqueue []
  · rw [heq]
    exact (hqueue rest).trans (.start _ s _)

theorem startDue {e : Editor} (he : e.debouncer.Sound) (now : Time) :
    Tells e (e.startDue now).2.2 := by
  rcases startDue_cases he now with ⟨-, heq⟩ | ⟨s, _, mode, -, -, -, heq⟩
  · rw [heq]
    exact .of_eq rfl rfl rfl
  · have hfired : Tells e (e.afterFiring s mode) := .of_eq rfl rfl rfl
    rw [heq]
    split
    · exact hfired.trans (.start _ s mode)
    · exact hfired

theorem tick {e : Editor} (he : e.Sound) (now : Time) : Tells e (e.tick now).2 := by
  rw [tick_snd]
  exact ((Tells.takeInCompleted e).trans (.startQueued _)).trans
    (.startDue (sound_startQueued he).armed now)

end Tells

/-! ### Commands -/

/-- The document that is shown is open. -/
def ActiveOpen (e : Editor) : Prop := ∀ id, e.active = some id → id ∈ e.ids

/-- Actions on a document that stays open tell analyses and statuses of the
document that is shown then. -/
theorem tells_act {e : Editor} {s : Session} (hs : s ∈ e.sessions) (action : Action) :
    ∃ e₁ : Editor, e₁.outbox = e.outbox ∧ (e.ActiveOpen → e₁.ActiveOpen) ∧
      Tells e₁ (e.act s action).2 := by
  have hsame : ∀ e', Tells e e' →
      ∃ e₁ : Editor, e₁.outbox = e.outbox ∧ (e.ActiveOpen → e₁.ActiveOpen) ∧ Tells e₁ e' :=
    fun _ h => ⟨e, rfl, id, h⟩
  cases action with
  | close =>
    refine ⟨e.close s, rfl, fun h id hid => ?_, .refl _⟩
    unfold close at hid
    dsimp only at hid
    split at hid
    · contradiction
    · next hne =>
      obtain ⟨t, ht, rfl⟩ := List.mem_map.1 (h id hid)
      refine List.mem_map_of_mem (List.mem_filter.2 ⟨ht, decide_eq_true fun heq => hne ?_⟩)
      rw [hid, heq]
  | activate =>
    let shown := { s with tracking := { s.tracking with viewsStale := false } }
    let e₁ := { e with active := some s.id }.setSession shown
    have hactive : e₁.active = some s.id := rfl
    have htold : ∀ e' : Editor, Tells e₁ e' →
        Tells e₁ ((e'.emit (.statusChanged s.id s.tracking.status)).emit
          (.affordancesChanged s.id s.history.affordances)) := by
      intro e' h
      have hstatus : Tells e' (e'.emit (.statusChanged s.id s.tracking.status)) :=
        .emit e' fun _ => h.active.trans hactive
      exact (h.trans hstatus).trans (.emit _ (by nofun))
    refine ⟨e₁, rfl, fun _ id hid => ?_, ?_⟩
    · rw [show e₁.ids = e.ids from ids_setSession { e with active := some s.id } shown,
        ← Option.some.inj (hactive.symm.trans hid)]
      exact mem_ids hs
    · unfold act activate
      dsimp only
      split
      · exact htold _ (.emit e₁ fun _ => hactive)
      · exact htold _ (.refl e₁)
  | edit now edits => exact hsame _ (.edit e s now edits)
  | saved now => exact hsame _ (.of_eq (ids_setSession e _) rfl rfl)
  | structural now => exact hsame _ (.of_eq (ids_setSession e _) rfl rfl)
  | force => exact hsame _ (.force e s)
  | enable on => exact hsame _ (.enable e s on)
  | moveCaret position => exact hsame _ (.moveCaret e s position)
  | goBack => exact hsame _ (.replay e s _ _)
  | goForward => exact hsame _ (.replay e s _ _)
  | markNext nextMove => exact hsame _ (.setSession e _)
  | setRecording on => exact hsame _ (.setSession e _)

/-- A command first decides which document is shown, and tells analyses and
statuses of that one only. -/
theorem tells_perform {e : Editor} (he : e.Sound) (c : Command) :
    ∃ e₁ : Editor, e₁.outbox = e.outbox ∧ (e.ActiveOpen → e₁.ActiveOpen) ∧
      Tells e₁ (e.perform c).2 := by
  cases c with
  | openDocument path text =>
    refine ⟨e.withNext path text, rfl, fun h id hid => ?_, .start _ (e.next path text) _⟩
    have hids : (e.withNext path text).ids = e.ids ++ [⟨e.opened + 1⟩] := List.map_append
    rw [hids, List.mem_append]
    cases ha : e.active with
    | some other =>
      have hid : e.active = some id := by
        rw [← hid]
        simp [withNext, ha]
      exact .inl (h id hid)
    | none =>
      have hid : some ⟨e.opened + 1⟩ = some id := by
        rw [← hid]
        simp [withNext, ha]
      exact .inr (List.mem_singleton.2 (Option.some.inj hid).symm)
  | act id action =>
    unfold perform
    dsimp only
    split
    · next s hs => exact tells_act (mem_of_session?_eq_some hs).1 action
    · exact ⟨e, rfl, fun h => h, .refl e⟩
  | finishPass analyzer => exact ⟨e, rfl, fun h => h, .of_eq rfl rfl rfl⟩
  | tick now => exact ⟨e, rfl, fun h => h, .tick he now⟩

theorem activeOpen_run (config : Config) (commands : List Command) :
    ((new config).run commands).ActiveOpen := by
  refine (holds_run (P := ActiveOpen) (fun e c he h => ?_) (sound_new config) nofun commands).2
  obtain ⟨e₁, -, hopen, htells⟩ := tells_perform he c
  intro id hid
  rw [htells.ids]
  exact hopen h id (htells.active ▸ hid)

/-- The surface mirrors the documents: what it was told last is what is kept. -/
structure Mirrors (e : Editor) : Prop where
  activeOpen : ∀ id, e.active = some id → e.isOpen id = true
  /-- The views of the document that is shown are fresh and show the analysis on
  record. -/
  views : ∀ s ∈ e.sessions, e.active = some s.id → s.tracking.viewsStale = false ∧
    last? Event.analysis? (e.told s.id) = s.tracking.analysis
  status : ∀ s ∈ e.sessions, e.active = some s.id →
    last? Event.status? (e.told s.id) = some s.tracking.status ∨
      last? Event.status? (e.told s.id) = none ∧ s.tracking.status = .idle
  /-- The affordances of every document are known, whether it is shown or not. -/
  affordances : ∀ s ∈ e.sessions,
    last? Event.affordances? (e.told s.id) = some s.history.affordances ∨
      last? Event.affordances? (e.told s.id) = none ∧ s.history.affordances = ⟨false, false⟩

/-- After every run the surface mirrors the documents, and the next command tells
analyses and statuses of the document that is shown then only. -/
theorem mirrors_run (config : Config) (commands : List Command) :
    ((new config).run commands).Mirrors ∧
      ∀ c, ∃ fresh, (((new config).run commands).perform c).2.outbox =
          ((new config).run commands).outbox ++ fresh ∧
        ∀ event ∈ fresh, event.isOfShown = true →
          (((new config).run commands).perform c).2.active = some event.document := by
  have hlanes : ∀ s ∈ ((new config).run commands).sessions,
      (((new config).run commands).lane s).Mirrored :=
    (keeps_run_new (fun _ h => Lane.Opened.mirrored h) (fun _ _ h hstep => h.step hstep)
      fun c _ => c.uses_any).lanes
  refine ⟨⟨?_, ?_, ?_, ?_⟩, fun c => ?_⟩
  · exact fun id hid => isOpen_iff.2 (activeOpen_run config commands id hid)
  · intro s hs hactive
    have hfresh := (hlanes s hs).views.fresh (decide_eq_true hactive)
    exact ⟨hfresh, (hlanes s hs).views.analysis hfresh⟩
  · intro s hs hactive
    have hstatus := (hlanes s hs).status (decide_eq_true hactive)
    exact (Option.getD_eq_iff.1 hstatus).imp_right (And.imp_right Eq.symm)
  · intro s hs
    exact (Option.getD_eq_iff.1 (hlanes s hs).affordances).imp_right (And.imp_right Eq.symm)
  · obtain ⟨e₁, hout, -, htells⟩ := tells_perform (sound_run config commands) c
    obtain ⟨fresh, hnew, hof⟩ := htells.events
    refine ⟨fresh, by rw [hnew, hout], fun event hm hs => ?_⟩
    rw [htells.active]
    exact hof event hm hs

end Editor

end ScriptDesk
