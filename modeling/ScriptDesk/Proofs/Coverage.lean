import ScriptDesk.Proofs.Runs

/-!
# ScriptDesk.Proofs.Coverage

No analysis that is needed is ever lost. A document that needs an analysis has a
deadline armed, or waits for the place for passes, or has a pass under way that
will settle it; and in each case the analysis to come is as deep as the document
asks for. The invariant is one of lanes: coverage may be handed on from the
deadlines to the queue and from there to the pass, but it ends only when the
document is settled.
-/

namespace ScriptDesk

/-- An analysis that an open document needs is under way or to come. -/
inductive Editor.Covered (e : Editor) (s : Session) : Prop where
  /-- A deadline is armed, and with full analysis on it is the full one. -/
  | armed (h : if s.tracking.enabled then (e.debouncer.deadlines s.id).full.isSome = true
      else (e.debouncer.deadlines s.id).isIdle = false)
  /-- The document is queued, and with full analysis on it is for a full pass. -/
  | queued (q : Queued) (hq : q ∈ e.flight.queue) (hid : q.document = s.id)
      (hm : s.tracking.enabled = true → q.mode = .full)
  /-- A pass is under way on the document as it is. -/
  | inFlight (h : e.flight.inFlight? = some (s.id, s.tracking.version, s.tracking.mode))

theorem Tracking.mode_covers_iff {t : Tracking} {m : Mode} :
    t.mode.covers m = true ↔ (m = .full → t.enabled = true) := by
  unfold Tracking.mode
  cases t.enabled <;> cases m <;> simp [Mode.covers]

theorem Tracking.covers_mode_iff {t : Tracking} {m : Mode} :
    m.covers t.mode = true ↔ (t.enabled = true → m = .full) := by
  unfold Tracking.mode
  cases t.enabled <;> cases m <;> simp [Mode.covers]

/-- Modes that cover each other are the same. -/
theorem Mode.covers_antisymm {m n : Mode} (hmn : m.covers n = true) (hnm : n.covers m = true) :
    m = n := by
  cases m <;> cases n <;> simp [covers] at hmn hnm ⊢

namespace Lane

/-- The deadlines ask for an analysis that settles the document. -/
def Due (d : Deadlines) (enabled : Bool) : Prop :=
  if enabled then d.full.isSome = true else d.isIdle = false

/-- An analysis that the document needs is under way or to come. -/
inductive Covered (l : Lane) : Prop where
  | armed (h : Due l.deadlines l.session.tracking.enabled)
  | queued (mode : Mode) (h : mode ∈ l.waiting) (hm : mode.covers l.session.tracking.mode = true)
  | inFlight (h : l.slot.stamp? = some l.session.tracking.current)

/-- What is kept about the document agrees with the pass on it, and an analysis
that it needs is under way or to come. -/
structure Minded (l : Lane) : Prop where
  agrees : l.session.tracking.Agrees l.slot.stamp?
  covered : l.session.tracking.needsAnalysis = true → l.Covered

variable {l l' : Lane}

/-- Arming the deadlines of a document covers it, whatever the trigger. -/
theorem due_after (now : Time) (policy : Policy) (trigger : Trigger) (enabled : Bool) :
    Due (.after now (policy.arm trigger enabled)) enabled := by
  cases enabled with
  | true => simp [Due, Deadlines.after, Policy.arm]
  | false => simp [Due]

/-- Coverage depends on the deadlines, the queue, the pass, and on the version and
the mode of the document only. -/
theorem Covered.of_eq (h : l.Covered) (hd : l'.deadlines = l.deadlines)
    (hw : l'.waiting = l.waiting) (hp : l'.slot.stamp? = l.slot.stamp?)
    (hv : l'.session.tracking.version = l.session.tracking.version)
    (he : l'.session.tracking.enabled = l.session.tracking.enabled) : l'.Covered := by
  have hm : l'.session.tracking.mode = l.session.tracking.mode := by
    simp only [Tracking.mode, he]
  cases h with
  | armed h => exact .armed (by rwa [hd, he])
  | queued mode h hc => exact .queued mode (hw ▸ h) (hm ▸ hc)
  | inFlight h => exact .inFlight (by rw [hp, h, Tracking.current, Tracking.current, hv, hm])

/-- Steps of the caret and of the views do not matter. -/
theorem Minded.of_eq (h : l.Minded) (hd : l'.deadlines = l.deadlines)
    (hw : l'.waiting = l.waiting) (hp : l'.slot.stamp? = l.slot.stamp?)
    (ht : l'.session.tracking = l.session.tracking) : l'.Minded where
  agrees := by rw [ht, hp]; exact h.agrees
  covered hn := (h.covered (ht ▸ hn)).of_eq hd hw hp (by rw [ht]) (by rw [ht])

/-! ## Requests -/

/-- A pass of the right mode covers the document, and one of a lesser mode takes
nothing away from what covers it otherwise. -/
theorem covered_launch {mode : Mode} (task : Nat) (hfree : l.slot = .free)
    (hm : l.session.tracking.mode.covers mode = true)
    (h : mode = l.session.tracking.mode ∨ l.Covered) : (l.launch task mode).Covered := by
  have hpass : mode = l.session.tracking.mode → (l.launch task mode).Covered := by
    rintro rfl
    refine .inFlight ?_
    rw [slot_launch, session_launch]
    rfl
  rcases h with h | h
  · exact hpass h
  · cases h with
    | armed h =>
      refine .armed ?_
      rw [deadlines_launch, session_launch]
      exact h
    | queued m hq hc =>
      cases hmm : mode.covers m with
      | true =>
        -- The pass answers the request, so it goes off the queue.
        refine hpass (Mode.covers_antisymm ?_ hm)
        cases mode <;> cases m <;> simp_all [Mode.covers]
      | false =>
        refine .queued m ?_ ?_
        · rw [waiting_launch]
          exact List.mem_filter.2 ⟨hq, by simp [hmm]⟩
        · rw [session_launch]
          exact hc
    | inFlight h =>
      rw [hfree] at h
      contradiction

theorem Minded.launch {mode : Mode} (task : Nat) (hfree : l.slot = .free)
    (ha : l.session.tracking.Agrees l.slot.stamp?)
    (hm : l.session.tracking.mode.covers mode = true)
    (h : l.session.tracking.needsAnalysis = true →
      mode = l.session.tracking.mode ∨ l.Covered) : (l.launch task mode).Minded where
  agrees := by
    rw [hfree] at ha
    rw [session_launch, slot_launch]
    exact ha.noteStart hm
  covered hn := by
    rw [session_launch] at hn
    exact covered_launch task hfree hm (h hn)

/-- A request in the mode that the document is in covers it. -/
theorem Requests.minded (h : Requests l.session.tracking.mode l l')
    (ha : l.session.tracking.Agrees l.slot.stamp?) : l'.Minded := by
  cases h with
  | started task hfree =>
    exact .launch task hfree ha (Mode.covers_refl _) fun _ => .inl rfl
  | queued =>
    obtain ⟨m, hm, hc⟩ := exists_covers_requeue l.waiting l.session.tracking.mode
    exact ⟨ha, fun _ => .queued m hm hc⟩

theorem Opened.minded {config : Config} (h : Opened config l) : l.Minded := by
  obtain ⟨id, path, text, shown, hreq⟩ := h
  exact hreq.minded (Tracking.agrees_new _ _)

/-! ## Steps -/

theorem Minded.act {policy : Policy} (h : l.Minded) (hact : Act policy l l') : l'.Minded := by
  cases hact with
  | edit now edits =>
    have ha := h.agrees.noteEdit
    have hd := due_after now policy .typing l.session.tracking.noteEdit.enabled
    unfold edit
    dsimp only
    split
    · exact ⟨ha, fun _ => .armed hd⟩
    · refine ⟨?_, fun _ => .armed ?_⟩
      · rw [session_publishStatus, slot_publishStatus]
        exact ha
      · rw [session_publishStatus, deadlines_publishStatus]
        exact hd
  | saved now => exact ⟨h.agrees.invalidate, fun _ => .armed (due_after _ _ _ _)⟩
  | structural now => exact ⟨h.agrees.invalidate, fun _ => .armed (due_after _ _ _ _)⟩
  | force hreq => exact Requests.minded (l := l.forced) hreq h.agrees.invalidate
  | enable on hne hreq =>
    exact Requests.minded (l := (l.setTracking (l.session.tracking.setEnabled on)).forced) hreq
      (h.agrees.setEnabled on).invalidate
  | activate =>
    obtain ⟨hsession, hd, hw, hs⟩ := l.activate_keeps
    have ht : l.activate.session.tracking = { l.session.tracking with viewsStale := false } := by
      rw [hsession]
    refine ⟨?_, fun hn => ?_⟩
    · rw [ht, hs]
      exact h.agrees.showViews
    · rw [ht] at hn
      exact (h.covered hn).of_eq hd hw (by rw [hs]) (by rw [ht]) (by rw [ht])
  | hide => exact h.of_eq rfl rfl rfl rfl
  | moveCaret position =>
    unfold moveCaret
    dsimp only
    split <;> exact h.of_eq rfl rfl rfl rfl
  | goBack => unfold replay; split <;> exact h.of_eq rfl rfl rfl rfl
  | goForward => unfold replay; split <;> exact h.of_eq rfl rfl rfl rfl
  | markNext nextMove => exact h.of_eq rfl rfl rfl rfl
  | setRecording on => exact h.of_eq rfl rfl rfl rfl

/-- A pass that is on the document as it is settles it when it ends. -/
theorem Minded.takeIn {done : Completion} (h : l.Minded) (hs : l.slot = .finished done) :
    (l.takeIn done).Minded := by
  obtain ⟨hsession, hd, hw, hslot, -⟩ := l.takeIn_keeps done
  have ha : l.session.tracking.Agrees (some ⟨done.version, done.mode⟩) := by
    have ha := h.agrees
    rw [hs] at ha
    exact ha
  obtain ⟨hv, he, -⟩ := Tracking.settle_keeps ha l.shown
  refine ⟨?_, fun hn => ?_⟩
  · rw [hsession, hslot]
    exact ha.settle l.shown
  · rw [hsession] at hn
    have hneeds : l.session.tracking.needsAnalysis = true := by
      rcases Tracking.settle_cases ha l.shown with ⟨heq, -⟩ | ⟨heq, -, -⟩ <;>
        rw [heq] at hn
      · simp only [Tracking.apply] at hn
        split at hn
        · contradiction
        · exact hn
      · exact hn
    have hm : (l.takeIn done).session.tracking.mode = l.session.tracking.mode := by
      simp only [Tracking.mode, hsession, he]
    cases h.covered hneeds with
    | armed h => exact .armed (by rw [hd, hsession]; exact he ▸ h)
    | queued mode h hc => exact .queued mode (hw ▸ h) (hm ▸ hc)
    | inFlight h =>
      rw [hs] at h
      have hset := Tracking.settle_current ha l.shown (Option.some.inj h).symm
      rw [hset] at hn
      contradiction

/-- The turn of the document has come: its request goes off the queue, and the
pass that starts is as deep as the document asks for by now. -/
theorem Minded.startQueued {mode : Mode} {rest : List Mode} (task : Nat) (h : l.Minded)
    (hw : l.waiting = mode :: rest) (hfree : l.slot = .free) :
    ({ l with waiting := rest }.launch task
      (if l.session.tracking.enabled then mode else .minimal)).Minded := by
  refine Minded.launch (l := { l with waiting := rest }) task hfree h.agrees ?_ fun hn => ?_
  · refine Tracking.mode_covers_iff.2 fun hf => ?_
    split at hf
    · assumption
    · contradiction
  · cases h.covered hn with
    | armed h => exact .inr (.armed h)
    | queued m hm hc =>
      rw [hw] at hm
      rcases List.mem_cons.1 hm with rfl | hm
      · -- The request that covers the document is the one whose turn has come.
        refine .inl ?_
        have hc := Tracking.covers_mode_iff.1 hc
        cases he : l.session.tracking.enabled <;> simp_all [Tracking.mode]
      · exact .inr (.queued m hm hc)
    | inFlight h =>
      rw [hfree] at h
      contradiction

/-- A deadline has passed: a provisional pass leaves the full deadline armed, and
every other pass settles the document. -/
theorem Minded.startDue {now deadline : Time} {mode : Mode} (task : Nat) (h : l.Minded)
    (hd : l.deadlines.due? now l.session.tracking.enabled = some (deadline, mode))
    (hfree : l.slot = .free) : ((l.fired mode).launch task mode).Minded := by
  refine Minded.launch (l := l.fired mode) task hfree h.agrees ?_ fun hn => ?_
  · refine Tracking.mode_covers_iff.2 fun hf => ?_
    exact Deadlines.enabled_of_due?_full (hf ▸ hd)
  · by_cases hm : mode = l.session.tracking.mode
    · exact .inl hm
    · refine .inr ?_
      have hprov : mode = .minimal ∧ l.session.tracking.enabled = true := by
        cases mode with
        | minimal => cases he : l.session.tracking.enabled <;> simp_all [Tracking.mode]
        | full =>
          have he := Deadlines.enabled_of_due?_full hd
          simp [Tracking.mode, he] at hm
      obtain ⟨rfl, he⟩ := hprov
      cases h.covered hn with
      | armed h =>
        refine .armed ?_
        have heq : (l.fired .minimal).deadlines = { l.deadlines with names := none } := by
          simp [fired, he, Deadlines.afterFiring]
        have he' : (l.fired .minimal).session.tracking.enabled = true := he
        rw [heq, he']
        rw [he] at h
        exact h
      | queued m h hc => exact .queued m h hc
      | inFlight h => exact .inFlight h

theorem Minded.advance {known : Analyzer → Prop} (h : l.Minded) (hadv : Advance known l l') :
    l'.Minded := by
  cases hadv with
  | finish analyzer _ => exact h.of_eq rfl rfl (SingleFlight.stamp?_finishSlot _ _) rfl
  | takeIn done hs => exact h.takeIn hs
  | startQueued task hw hfree => exact h.startQueued task hw hfree
  | startDue task hd _ hfree => exact h.startDue task hd hfree
  | upToDate hd hn hfree =>
    refine ⟨h.agrees, fun hneeds => ?_⟩
    rw [show (l.fired _).session = l.session from rfl, hn] at hneeds
    contradiction

theorem Minded.step {policy : Policy} {known : Analyzer → Prop} (h : l.Minded)
    (hstep : Step policy known l l') : l'.Minded := by
  cases hstep with
  | act hact => exact h.act hact
  | advance hadv => exact h.advance hadv

end Lane

namespace Editor

/-- In every state that the editor reaches, with any analyzers, what is kept about
the open documents agrees with the pass under way, and nothing that is needed is
lost. -/
theorem minded_run (config : Config) (commands : List Command) {s : Session}
    (hs : s ∈ ((new config).run commands).sessions) :
    (((new config).run commands).lane s).Minded :=
  (keeps_run_new (fun _ h => Lane.Opened.minded h) (fun _ _ h hstep => h.step hstep)
    fun c _ => c.uses_any).lanes s hs

/-- No analysis that is needed is ever lost. -/
theorem covered_of_needsAnalysis (config : Config) (commands : List Command) {s : Session}
    (hs : s ∈ ((new config).run commands).sessions) (hn : s.tracking.needsAnalysis = true) :
    ((new config).run commands).Covered s := by
  cases (minded_run config commands hs).covered hn with
  | armed h => exact .armed h
  | queued mode h hc =>
    exact .queued ⟨s.id, mode⟩ (SingleFlight.mem_waiting_iff.1 h) rfl
      (Tracking.covers_mode_iff.1 hc)
  | inFlight h => exact .inFlight (SingleFlight.inFlight?_eq_some_iff.2 h)

/-- A document that was edited while its first pass was under way is covered. -/
theorem covered_after_edit :
    ∃ s ∈ ((new {}).run [.openDocument (some "a.scr") "", .act ⟨1⟩ (.edit 7 [])]).sessions,
      s.tracking.needsAnalysis = true ∧
        ((new {}).run [.openDocument (some "a.scr") "", .act ⟨1⟩ (.edit 7 [])]).Covered s :=
  ⟨_, List.mem_cons_self, rfl, covered_of_needsAnalysis {} _ List.mem_cons_self rfl⟩

end Editor

end ScriptDesk
