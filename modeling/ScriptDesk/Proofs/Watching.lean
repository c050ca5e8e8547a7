import ScriptDesk.Proofs.Reports
import ScriptDesk.Proofs.Solitary

/-!
# ScriptDesk.Proofs.Watching

Watching a file prints what `analyze` would (`Program.printsAsAnalyze_run`). A new content
is an edit and a save, so it arms deadlines, and the pass that comes of them is fed with what
was known of the content before. With the right delays it comes to one pass, which settles
the document; so its views are refreshed once, by an editor that has come to rest, and such an
editor shows what a single pass finds (`Editor.showsScratch_of_isIdle`).

`Watch.Watched` is the watch under any timing: passes end, the time is told and contents are
written in any order, as long as each content is written after the report on the one before it
was printed.
-/

namespace ScriptDesk

namespace Watch

/-! ## Steps of a watch -/

/-- The running pass ends. -/
def finish (w : Watch) : Watch :=
  { w with editor := (w.editor.finishPass builtinAnalyzer).2 }

/-- A new content is noticed: it is taken as edited, and then as saved. -/
def write (w : Watch) (content : String) (edited saved : Time) : Watch :=
  { w with editor := w.editor.run (Editor.writes w.document content edited saved) }

theorem notice_eq (w : Watch) (content : String) : w.notice content = w.write content w.now w.now :=
  rfl

theorem advance_eq (w : Watch) : w.advance = w.finish.turn (w.editor.nextTick w.now) := rfl

/-- A watch that went on in some way: the contents that the file had, the reports that were
printed, and the watch by now. -/
inductive Watched (config : Config) (path content : String) :
    List String → List Report → Watch → Prop where
  | start : Watched config path content [content] [] (start config path content)
  | finish {contents : List String} {printed : List Report} {w : Watch}
      (h : Watched config path content contents printed w) :
      Watched config path content contents printed w.finish
  | turn {contents : List String} {printed : List Report} {w : Watch}
      (h : Watched config path content contents printed w) (now : Time) :
      Watched config path content contents (printed ++ (w.turn now).1) (w.turn now).2
  /-- The file gets its next content after the report on the one before it. -/
  | write {contents : List String} {printed : List Report} {w : Watch}
      (h : Watched config path content contents printed w)
      (hseen : contents.length ≤ printed.length) (next : String) (edited saved : Time) :
      Watched config path content (contents ++ [next]) printed (w.write next edited saved)

/-! ## What holds all along -/

/-- The only document of the watch is the file, with its present content. -/
structure Follows (config : Config) (path content : String) (w : Watch) (s : Session) : Prop where
  keeps : Editor.Keeps config (fun l => l.Minded ∧ l.Faithful) w.editor
  sole : w.editor.Solitary s
  document : w.document = s.id
  script : Editor.IsScript config (path, content) s
  quiet : IsQuiet w.editor.outbox

/-- A command of the editor keeps what holds of its documents. -/
theorem keeps_run {config : Config} {e : Editor}
    (h : Editor.Keeps config (fun l => l.Minded ∧ l.Faithful) e) {commands : List Command}
    (hc : ∀ c ∈ commands, c.Uses IsBuiltin) :
    Editor.Keeps config (fun l => l.Minded ∧ l.Faithful) (e.run commands) :=
  Editor.Keeps.run (fun _ h => ⟨h.minded, h.faithful⟩)
    (fun _ _ h hstep => ⟨h.1.step hstep, h.2.step h.1 hstep⟩) h hc

/-- What was told does not matter to a document. -/
theorem keeps_takeEvents {config : Config} {e : Editor}
    (h : Editor.Keeps config (fun l => l.Minded ∧ l.Faithful) e) :
    Editor.Keeps config (fun l => l.Minded ∧ l.Faithful) e.takeEvents.2 where
  sound := {
    armed := h.sound.armed
    distinct := h.sound.distinct
    numbered := h.sound.numbered
    untouched := fun id hid => by
      have hblank := h.sound.untouched id hid
      have hshare : e.takeEvents.2.share id = { e.share id with told := [] } := rfl
      rw [hshare, hblank] }
  configured := h.configured
  policy := h.policy
  lanes s hs := by
    obtain ⟨hm, hf⟩ := h.lanes s hs
    exact ⟨⟨hm.agrees, fun hn => by
      cases hm.covered hn with
      | armed h => exact .armed h
      | queued mode h hmode => exact .queued mode h hmode
      | inFlight h => exact .inFlight h⟩, ⟨hf.hasFile, hf.own, hf.reads, hf.settled⟩⟩

variable {config : Config} {path content : String} {w : Watch} {s : Session}

/-- The report on the content. -/
def reportOn (config : Config) (path content : String) : Report :=
  scratchReport config.analysis.enabled path content

theorem Follows.finish (h : Follows config path content w s) :
    Follows config path content w.finish s where
  keeps :=
    have huses : (Command.finishPass builtinAnalyzer).Uses IsBuiltin := rfl
    keeps_run h.keeps (List.forall_mem_singleton.2 huses)
  sole := by
    obtain ⟨hflight, -⟩ := w.editor.finishPass_keeps builtinAnalyzer
    refine ⟨h.sole.sessions, h.sole.shown, ?_⟩
    change (w.editor.finishPass builtinAnalyzer).2.flight.queue = []
    rw [hflight]
    exact h.sole.unqueued
  document := h.document
  script := h.script
  quiet := h.quiet

/-- After a turn the same holds, if the document is still the same. -/
theorem Follows.turn (h : Follows config path content w s) (now : Time) {tracking : Tracking}
    (hsole : (w.editor.tick now).2.Solitary { s with tracking })
    (henabled : tracking.enabled = s.tracking.enabled) :
    Follows config path content (w.turn now).2 { s with tracking } where
  keeps :=
    have huses : (Command.tick now).Uses IsBuiltin := trivial
    have hticked : Editor.Keeps config (fun l => l.Minded ∧ l.Faithful) (w.editor.tick now).2 :=
      keeps_run h.keeps (List.forall_mem_singleton.2 huses)
    keeps_takeEvents hticked
  sole := ⟨hsole.sessions, hsole.shown, hsole.unqueued⟩
  document := h.document
  script := ⟨h.script.path, h.script.text, henabled.trans h.script.enabled⟩
  quiet := isQuiet_nil

theorem turn_fst_of_isQuiet {now : Time} (h : IsQuiet (w.editor.tick now).2.outbox) :
    (w.turn now).1 = [] := by
  change (refreshedDocuments (w.editor.tick now).2.outbox).map _ = []
  rw [refreshedDocuments_of_isQuiet h]
  rfl

/-! ## Turns -/

/-- The turn leaves the editor as it is, but for what was told. -/
theorem Follows.turn_of_tick_eq (h : Follows config path content w s) {now : Time}
    (htick : (w.editor.tick now).2 = w.editor) :
    (w.turn now).1 = [] ∧ Follows config path content (w.turn now).2 s ∧
      (w.turn now).2.editor = { w.editor with outbox := [] } := by
  have hquiet : IsQuiet (w.editor.tick now).2.outbox := by
    rw [htick]
    exact h.quiet
  have hsole : (w.editor.tick now).2.Solitary { s with tracking := s.tracking } := by
    rw [htick]
    exact h.sole
  refine ⟨turn_fst_of_isQuiet hquiet, h.turn now hsole rfl, ?_⟩
  change (w.editor.tick now).2.takeEvents.2 = _
  rw [htick]
  rfl

theorem Follows.turn_of_resting (h : Follows config path content w s) (hr : w.editor.Resting)
    (now : Time) :
    (w.turn now).1 = [] ∧ Follows config path content (w.turn now).2 s ∧
      (w.turn now).2.editor.Resting := by
  obtain ⟨hprinted, hfollows, heditor⟩ := h.turn_of_tick_eq (hr.tick h.sole now)
  exact ⟨hprinted, hfollows, by rw [heditor]; exact ⟨hr.free, hr.unarmed⟩⟩

/-- When the pass has ended, the next turn prints the report that a single pass gives. -/
theorem Follows.turn_of_finished (h : Follows config path content w s) (hb : w.editor.Busy s)
    {done : Completion} (hslot : w.editor.flight.slot = .finished done) (now : Time) :
    (w.turn now).1 = [reportOn config path content] ∧
      ∃ s', Follows config path content (w.turn now).2 s' ∧ (w.turn now).2.editor.Resting := by
  obtain ⟨tracking, a, status, hsole, hr, henabled, hout⟩ := hb.tick_of_finished h.sole hslot now
  have hfollows := h.turn now hsole henabled
  have hresting : (w.turn now).2.editor.Resting := ⟨hr.free, hr.unarmed⟩
  refine ⟨?_, _, hfollows, hresting⟩
  have hrefreshed : refreshedDocuments (w.editor.tick now).2.outbox = [s.id] := by
    rw [hout]
    exact refreshedDocuments_around h.quiet (isQuiet_status _ _) s.id a
  -- The report is that of an idle editor.
  obtain ⟨hm, hf⟩ := hfollows.keeps.lanes _ hfollows.sole.mem
  obtain ⟨-, b, hshows⟩ := Editor.showsScratch_of_isIdle hfollows.keeps.sound hfollows.sole.mem
    hm hf (hresting.isIdle hfollows.sole)
  have hreport : (w.turn now).2.editor.report s.id = reportOn config path content := by
    rw [hfollows.script.path, hfollows.script.text, hfollows.script.enabled] at hshows
    exact hshows.report_eq hfollows.sole.session? hfollows.script.path
  change (refreshedDocuments (w.editor.tick now).2.outbox).map (w.turn now).2.editor.report = _
  rw [hrefreshed, List.map_singleton, hreport]

theorem Follows.turn_of_running (h : Follows config path content w s) (hb : w.editor.Busy s)
    (hslot : ∀ done, w.editor.flight.slot ≠ .finished done) (now : Time) :
    (w.turn now).1 = [] ∧ Follows config path content (w.turn now).2 s ∧
      (w.turn now).2.editor.Busy s := by
  obtain ⟨hprinted, hfollows, heditor⟩ := h.turn_of_tick_eq (hb.tick_of_running h.sole hslot now)
  refine ⟨hprinted, hfollows, ?_⟩
  rw [heditor]
  exact ⟨hb.document, hb.stamp, hb.unarmed, hb.outdated⟩

theorem Follows.turn_of_armed (h : Follows config path content w s) (ha : w.editor.Armed s)
    (now : Time) :
    (w.turn now).1 = [] ∧ ∃ s', Follows config path content (w.turn now).2 s' ∧
      ((w.turn now).2.editor.Busy s' ∨
        (w.turn now).2.editor.Armed s' ∧ ∃ t, w.editor.nextWakeup? = some t ∧ now < t) := by
  rcases ha.tick h.sole h.keeps.sound.armed now with
    ⟨htick, hlate⟩ | ⟨tracking, events, hsole, hb, henabled, hquiet, hout⟩
  · obtain ⟨hprinted, hfollows, heditor⟩ := h.turn_of_tick_eq htick
    refine ⟨hprinted, s, hfollows, .inr ⟨?_, hlate⟩⟩
    rw [heditor]
    exact ⟨ha.free, ha.needed, ha.armed, ha.outdated⟩
  · have hquiet : IsQuiet (w.editor.tick now).2.outbox := by
      rw [hout]
      exact h.quiet.append hquiet
    exact ⟨turn_fst_of_isQuiet hquiet, _, h.turn now hsole henabled,
      .inl ⟨hb.document, hb.stamp, hb.unarmed, hb.outdated⟩⟩

/-- No pass ends where none is under way. -/
theorem finish_of_free (h : w.editor.flight.slot = .free) : w.finish = w := by
  obtain ⟨⟨config, opened, sessions, active, debouncer, ⟨slot, queue, nextTask⟩, outbox⟩, _, _⟩ := w
  obtain rfl : slot = .free := h
  rfl

/-- When a pass is told to end, it has ended. -/
theorem exists_finished_of_busy (hb : w.editor.Busy s) :
    w.finish.editor.Busy s ∧ ∃ done, w.finish.editor.flight.slot = .finished done := by
  refine ⟨hb.finishPass builtinAnalyzer, ?_⟩
  have hflight := (w.editor.finishPass_keeps builtinAnalyzer).1
  change ∃ done, (w.editor.finishPass builtinAnalyzer).2.flight.slot = .finished done
  rw [hflight]
  cases hslot : w.editor.flight.slot with
  | free =>
    have hdocument := hb.document
    rw [hslot] at hdocument
    contradiction
  | running task snapshot => exact ⟨_, rfl⟩
  | finished done => exact ⟨done, rfl⟩

/-! ## Contents -/

/-- The first pass is under way from the start. -/
theorem follows_start (config : Config) (path content : String) :
    ∃ s, Follows config path content (start config path content) s ∧
      (start config path content).editor.Busy s := by
  let e := (Editor.new config).withNext (some path) content
  let s := (Editor.new config).next (some path) content
  have huses : (Command.openDocument (some path) content).Uses IsBuiltin := trivial
  have hkeeps := Editor.faithful_run config (List.forall_mem_singleton.2 huses)
  have hsole : e.Solitary s := ⟨rfl, rfl, rfl⟩
  obtain ⟨hsole', hbusy⟩ := hsole.start rfl rfl nofun
  obtain ⟨events, hquiet, hout⟩ := Editor.outbox_start_of_free (e := e) rfl s s.tracking.mode
  have hquiet : IsQuiet (start config path content).editor.outbox := by
    change IsQuiet (e.start s s.tracking.mode).2.outbox
    rw [hout]
    exact hquiet
  exact ⟨_, ⟨hkeeps, hsole', rfl, ⟨rfl, rfl, rfl⟩, hquiet⟩, hbusy⟩

/-- With these delays a save comes to one pass. -/
def PassesOnce (config : Config) : Prop :=
  config.analysis.enabled = false ∨ config.analysis.saveDelay ≤ config.analysis.localDelay

theorem PassesOnce.savesOnce (h : PassesOnce config) :
    Editor.SavesOnce config.analysis.policy config.analysis.enabled :=
  h.imp_right fun hle => Nat.mul_le_mul_left 1000 hle

/-- A content that is written while nothing is to be done arms its pass. -/
theorem Follows.write (h : Follows config path content w s) (hr : w.editor.Resting)
    (honce : PassesOnce config) (next : String) (edited saved : Time) :
    ∃ s', Follows config path next (w.write next edited saved) s' ∧
      (w.write next edited saved).editor.Armed s' := by
  obtain ⟨hm, -⟩ := h.keeps.lanes s h.sole.mem
  have hrecorded : ∀ a, s.tracking.applied = some a → a.version ≤ s.tracking.version :=
    fun a ha => Tracking.version_le_of_isOlder (hm.agrees.appliedOld a ha)
  have hpolicy : Editor.SavesOnce w.editor.debouncer.policy s.tracking.enabled := by
    rw [h.keeps.policy, h.script.enabled]
    exact honce.savesOnce
  obtain ⟨hsole, harmed, events, hquiet, hout⟩ :=
    hr.run_writes h.sole hrecorded hpolicy next edited saved
  rw [← h.document] at hsole harmed hout
  have huses : ∀ c ∈ Editor.writes w.document next edited saved, c.Uses IsBuiltin :=
    List.forall_mem_cons.2 ⟨trivial, List.forall_mem_singleton.2 trivial⟩
  refine ⟨_, ⟨keeps_run h.keeps huses, hsole, h.document,
    ⟨h.script.path, rfl, h.script.enabled⟩, ?_⟩, harmed⟩
  change IsQuiet (w.editor.run _).outbox
  rw [hout]
  exact h.quiet.append hquiet

/-! ## Any timing -/

/-- Either all contents are reported and nothing is to be done, or all but the last are, and
its pass is to come or under way. -/
inductive InStep (config : Config) (path : String) : List String → List Report → Watch → Prop where
  | reported {earlier : List String} {content : String} {w : Watch} {s : Session}
      (h : Follows config path content w s) (hr : w.editor.Resting) :
      InStep config path (earlier ++ [content])
        ((earlier ++ [content]).map (reportOn config path)) w
  | pending {earlier : List String} {content : String} {w : Watch} {s : Session}
      (h : Follows config path content w s) (hp : w.editor.Busy s ∨ w.editor.Armed s) :
      InStep config path (earlier ++ [content]) (earlier.map (reportOn config path)) w

variable {contents : List String} {printed : List Report}

theorem InStep.finish (h : InStep config path contents printed w) :
    InStep config path contents printed w.finish := by
  cases h with
  | reported h hr =>
    rw [finish_of_free hr.free]
    exact .reported h hr
  | pending h hp =>
    rcases hp with hb | ha
    · exact .pending h.finish (.inl (exists_finished_of_busy hb).1)
    · rw [finish_of_free ha.free]
      exact .pending h (.inr ha)

theorem InStep.turn (h : InStep config path contents printed w) (now : Time) :
    InStep config path contents (printed ++ (w.turn now).1) (w.turn now).2 := by
  cases h with
  | reported h hr =>
    obtain ⟨hprinted, hfollows, hr⟩ := h.turn_of_resting hr now
    rw [hprinted, List.append_nil]
    exact .reported hfollows hr
  | pending h hp =>
    rcases hp with hb | ha
    · by_cases hslot : ∃ done, w.editor.flight.slot = .finished done
      · obtain ⟨done, hslot⟩ := hslot
        obtain ⟨hprinted, s', hfollows, hr⟩ := h.turn_of_finished hb hslot now
        rw [hprinted, ← List.map_singleton, ← List.map_append]
        exact .reported hfollows hr
      · obtain ⟨hprinted, hfollows, hb⟩ :=
          h.turn_of_running hb (fun done hd => hslot ⟨done, hd⟩) now
        rw [hprinted, List.append_nil]
        exact .pending hfollows (.inl hb)
    · obtain ⟨hprinted, s', hfollows, hp⟩ := h.turn_of_armed ha now
      rw [hprinted, List.append_nil]
      exact .pending hfollows (hp.imp_right (·.1))

theorem InStep.write (h : InStep config path contents printed w) (honce : PassesOnce config)
    (hseen : contents.length ≤ printed.length) (next : String) (edited saved : Time) :
    InStep config path (contents ++ [next]) printed (w.write next edited saved) := by
  cases h with
  | reported h hr =>
    obtain ⟨s', hfollows, ha⟩ := h.write hr honce next edited saved
    exact .pending hfollows (.inr ha)
  | pending h hp =>
    -- The report on the last content was not printed yet.
    rw [List.length_append, List.length_singleton, List.length_map] at hseen
    omega

/-- Under any timing the watch is in step with the contents. -/
theorem Watched.inStep (h : Watched config path content contents printed w)
    (honce : PassesOnce config) : InStep config path contents printed w := by
  induction h with
  | start =>
    obtain ⟨s, hfollows, hb⟩ := follows_start config path content
    have hstep : InStep config path ([] ++ [content]) ([].map (reportOn config path)) _ :=
      .pending hfollows (.inl hb)
    exact hstep
  | finish _ ih => exact ih.finish
  | turn _ now ih => exact ih.turn now
  | write _ hseen next edited saved ih => exact ih.write honce hseen next edited saved

/-! ## Rounds -/

/-- The pass under way ends, and the report is printed. -/
theorem Follows.round_of_busy (h : Follows config path content w s) (hb : w.editor.Busy s)
    (now : Time) :
    (w.finish.turn now).1 = [reportOn config path content] ∧
      ∃ s', Follows config path content (w.finish.turn now).2 s' ∧
        (w.finish.turn now).2.editor.Resting := by
  obtain ⟨hb, done, hslot⟩ := exists_finished_of_busy hb
  exact h.finish.turn_of_finished hb hslot now

/-- Once the deadline has passed, the pass starts. -/
theorem Follows.round_of_armed (h : Follows config path content w s) (ha : w.editor.Armed s)
    {now : Time} (hnext : ∀ t, w.editor.nextWakeup? = some t → t ≤ now) :
    (w.finish.turn now).1 = [] ∧ ∃ s', Follows config path content (w.finish.turn now).2 s' ∧
      (w.finish.turn now).2.editor.Busy s' := by
  rw [finish_of_free ha.free]
  obtain ⟨hprinted, s', hfollows, hb | ⟨-, t, ht, hlate⟩⟩ := h.turn_of_armed ha now
  · exact ⟨hprinted, s', hfollows, hb⟩
  · exact absurd (hnext t ht) (Nat.not_le.2 hlate)

theorem Follows.round_of_resting (h : Follows config path content w s) (hr : w.editor.Resting)
    (now : Time) : (w.finish.turn now).1 = [] ∧
      Follows config path content (w.finish.turn now).2 s ∧
      (w.finish.turn now).2.editor.Resting := by
  rw [finish_of_free hr.free]
  exact h.turn_of_resting hr now

/-- Once the deadlines have passed, two rounds print what is missing, and nothing else. -/
theorem InStep.two_rounds (h : InStep config path contents printed w) {now : Time}
    (hnext : ∀ t, w.editor.nextWakeup? = some t → t ≤ now) (later : Time) :
    printed ++ (w.finish.turn now).1 ++ ((w.finish.turn now).2.finish.turn later).1 =
      contents.map (reportOn config path) := by
  cases h with
  | reported h hr =>
    obtain ⟨hfirst, hfollows, hr⟩ := h.round_of_resting hr now
    rw [hfirst, (hfollows.round_of_resting hr later).1, List.append_nil, List.append_nil]
  | pending h hp =>
    rcases hp with hb | ha
    · obtain ⟨hfirst, s', hfollows, hr⟩ := h.round_of_busy hb now
      rw [hfirst, (hfollows.round_of_resting hr later).1, List.append_nil, List.map_append]
      rfl
    · obtain ⟨hfirst, s', hfollows, hb⟩ := h.round_of_armed ha hnext
      rw [hfirst, (hfollows.round_of_busy hb later).1, List.append_nil, List.map_append]
      rfl

/-! ## Rest -/

theorem isIdle_of_busy (hb : w.editor.Busy s) : w.editor.isIdle = false := by
  have hbusy : w.editor.flight.isBusy = true := by
    rw [← Bool.not_eq_false, SingleFlight.isBusy_eq_false_iff]
    intro hslot
    have hdocument := hb.document
    rw [hslot] at hdocument
    contradiction
  simp [Editor.isIdle, Editor.isAnalyzing, hbusy]

theorem isIdle_of_armed (ha : w.editor.Armed s) : w.editor.isIdle = false := by
  obtain ⟨-, t, -, -, ht⟩ := ha.nextWakeup?_eq
  simp [Editor.isIdle, ht]

theorem restWithin_of_resting (h : Follows config path content w s) (hr : w.editor.Resting)
    (fuel : Nat) : restWithin fuel w = ([], w) := by
  cases fuel with
  | zero => rfl
  | succ fuel => exact if_pos (hr.isIdle h.sole)

theorem restWithin_of_busy (h : Follows config path content w s) (hb : w.editor.Busy s)
    (fuel : Nat) :
    ∃ w' s', restWithin (fuel + 1) w = ([reportOn config path content], w') ∧
      Follows config path content w' s' ∧ w'.editor.Resting := by
  obtain ⟨hprinted, s', hfollows, hr⟩ := h.round_of_busy hb (w.editor.nextTick w.now)
  rw [← advance_eq] at hprinted hfollows hr
  refine ⟨_, s', ?_, hfollows, hr⟩
  rw [restWithin, if_neg (by rw [isIdle_of_busy hb]; exact Bool.false_ne_true)]
  dsimp only
  rw [restWithin_of_resting hfollows hr, hprinted, List.append_nil]

theorem restWithin_of_armed (h : Follows config path content w s) (ha : w.editor.Armed s)
    (fuel : Nat) :
    ∃ w' s', restWithin (fuel + 2) w = ([reportOn config path content], w') ∧
      Follows config path content w' s' ∧ w'.editor.Resting := by
  have hnext : ∀ t, w.editor.nextWakeup? = some t → t ≤ w.editor.nextTick w.now := by
    intro t ht
    rw [Editor.nextTick, ht]
    exact Nat.le_max_right _ _
  obtain ⟨hprinted, s', hfollows, hb⟩ := h.round_of_armed ha hnext
  rw [← advance_eq] at hprinted hfollows hb
  obtain ⟨w', s'', hrest, hlast⟩ := restWithin_of_busy hfollows hb fuel
  refine ⟨w', s'', ?_, hlast⟩
  rw [restWithin, if_neg (by rw [isIdle_of_armed ha]; exact Bool.false_ne_true)]
  dsimp only
  rw [hrest, hprinted, List.nil_append]

/-- Whatever is still to be done for the content, it comes to one report. -/
theorem rest_of_pending (h : Follows config path content w s)
    (hp : w.editor.Busy s ∨ w.editor.Armed s) :
    ∃ w' s', w.rest = ([reportOn config path content], w') ∧
      Follows config path content w' s' ∧ w'.editor.Resting := by
  unfold rest
  have hwork : w.editor.workLeft ≠ 0 := by
    intro hzero
    have hidle := (Editor.isIdle_iff w.editor).2 hzero
    rw [hp.elim isIdle_of_busy isIdle_of_armed] at hidle
    contradiction
  rcases hp with hb | ha
  · obtain ⟨fuel, hfuel⟩ := Nat.exists_eq_succ_of_ne_zero hwork
    rw [hfuel]
    exact restWithin_of_busy h hb fuel
  · -- A deadline counts twice.
    have hfree := SingleFlight.isBusy_eq_false_iff.2 ha.free
    rw [Editor.workLeft_eq, hfree, Bool.toNat_false] at hwork ⊢
    obtain ⟨fuel, hfuel⟩ : ∃ fuel, 2 * (w.editor.flight.queue.length +
        w.editor.debouncer.armedCount) + 0 = fuel + 2 := ⟨_, (Nat.sub_add_cancel (by omega)).symm⟩
    rw [hfuel]
    exact restWithin_of_armed h ha fuel

theorem follow_eq (honce : PassesOnce config) (h : Follows config path content w s)
    (hr : w.editor.Resting) (later : List String) :
    w.follow later = later.map (reportOn config path) := by
  induction later generalizing w content s with
  | nil => rfl
  | cons next later ih =>
    obtain ⟨s', hfollows, ha⟩ := h.write hr honce next w.now w.now
    obtain ⟨w', s'', hrest, hfollows, hr⟩ := rest_of_pending hfollows (.inr ha)
    rw [← notice_eq] at hrest
    rw [follow, hrest]
    dsimp only
    rw [ih hfollows hr]
    rfl

/-- One report for each content, in order. -/
theorem reports_eq (honce : PassesOnce config) (path content : String) (later : List String) :
    reports config path content later = (content :: later).map (reportOn config path) := by
  obtain ⟨s, hfollows, hb⟩ := follows_start config path content
  obtain ⟨w', s', hrest, hfollows, hr⟩ := rest_of_pending hfollows (.inl hb)
  rw [reports, hrest]
  dsimp only
  rw [follow_eq honce hfollows hr]
  rfl

end Watch

namespace Program

open Watch (PassesOnce Watched reportOn)

/-! ## `watch` -/

/-- What `analyze` reports on a file, for each of the contents that it has in turn. -/
def analyzed (config : Config) (path : String) (contents : List String) : List Report :=
  contents.flatMap fun content => analyzeScripts config [(path, content)]

theorem analyzed_eq (config : Config) (path : String) (contents : List String) :
    analyzed config path contents = contents.map (reportOn config path) := by
  unfold analyzed
  simp only [analyzeScripts_eq]
  exact List.map_eq_flatMap.symm

/-- The output of `analyze` for a file with some content. -/
theorem analyze_of_text {look : Look} {path content : String} (config : Config)
    (h : look path = .text content) :
    analyze look config [path] =
      .ok (String.join ((analyzed config path [content]).map Report.render)) := by
  have hread : ∀ file ∈ [path], Readable look file := List.forall_mem_singleton.2 ⟨content, h⟩
  have hcontent : (scriptAt look path).2 = content := by
    rw [scriptAt, h]
    rfl
  rw [analyze_of_readable config hread, analyzed_eq]
  unfold outputFor
  rw [List.map_singleton, hcontent]
  rfl

/-- `watch` on a file that has one content after another. -/
structure PrintsAsAnalyze (look : Look) (userPath : String) (asked : Option String) (verbose : Bool)
    (file : String) (config : Config) (content : String) (later : List String) (ending : Ending) :
    Prop where
  /-- What is printed are the reports that `analyze` gives for the contents in turn, -/
  printed : ending =
    .done (String.join ((analyzed config file (content :: later)).map Report.render))
  /-- one for each of them. -/
  single : ∀ text, ∃ report, analyzeScripts config [(file, text)] = [report]
  /-- They are what `analyze` prints while the file has that content. -/
  analyze : ∀ (other : Look) (text : String), other file = .text text →
    Program.analyze other config [file] =
      .ok (String.join ((analyzed config file [text]).map Report.render))
  /-- So does a run of its own, if the configuration is still the same. -/
  alone : ∀ (other : Look) (text : String), other file = .text text →
    loadConfig other userPath asked = .ok config →
    alone other userPath asked verbose false file =
      .done (String.join ((analyzed config file [text]).map Report.render))
  /-- Under any timing, if each content is written after the report on the one before it was
  printed: at most the report on the last content is missing, and nothing else is printed. -/
  anyTiming : ∀ contents reports w, Watched config file content contents reports w →
    reports = analyzed config file contents ∨ reports = analyzed config file contents.dropLast
  /-- What is missing is printed once the deadlines have passed and the pass has ended. -/
  progress : ∀ contents reports w, Watched config file content contents reports w →
    ∀ now later : Time, (∀ t, w.editor.nextWakeup? = some t → t ≤ now) →
      reports ++ (w.finish.turn now).1 ++ ((w.finish.turn now).2.finish.turn later).1 =
        analyzed config file contents

/-- `watch` prints what `analyze` would. -/
theorem printsAsAnalyze_run (userPath : String) (later : List String) {look : Look}
    {words : List String} {asked : Option String} {verbose : Bool} {file content : String}
    {pollMs : Nat} {config : Config}
    (hparse : CommandLine.parse words = .ok ⟨asked, verbose, .watch file pollMs⟩)
    (hconfig : loadConfig look userPath asked = .ok config)
    (hdelays : config.analysis.enabled = false ∨
      config.analysis.saveDelay ≤ config.analysis.localDelay)
    (hread : look file = .text content) :
    PrintsAsAnalyze look userPath asked verbose file config content later
      (run look userPath words later) := by
  obtain ⟨hasked, hfile⟩ := CommandLine.proper_of_parse_eq_ok hparse
  have hwatch : watch look config file later =
      .ok (String.join ((Watch.reports config file content later).map Report.render)) := by
    unfold watch readScript
    rw [hread]
    rfl
  have hunderstood : CommandLine.parse (CommandLine.analyzeWords asked verbose false [file]) =
      .ok ⟨asked, verbose, .analyze [file] false⟩ :=
    CommandLine.parse_analyzeWords verbose false hasked (List.cons_ne_nil _ _)
      (List.forall_mem_singleton.2 hfile)
  refine ⟨?_, fun text => ⟨_, analyzeScripts_eq config [(file, text)]⟩,
    fun other text h => analyze_of_text config h, ?_, ?_, ?_⟩
  · refine (run_of_parse hparse hconfig).trans ?_
    change endingOf (watch look config file later) = _
    rw [hwatch, Watch.reports_eq hdelays, analyzed_eq]
    rfl
  · intro other text h hother
    refine (run_of_parse hunderstood hother).trans ?_
    change endingOf (Program.analyze other config [file]) = _
    rw [analyze_of_text config h]
    rfl
  · intro contents reports w hw
    rw [analyzed_eq, analyzed_eq]
    cases hw.inStep hdelays with
    | reported h hr => exact .inl rfl
    | pending h hp => exact .inr (by rw [List.dropLast_concat])
  · intro contents reports w hw now later hnext
    rw [analyzed_eq]
    exact (hw.inStep hdelays).two_rounds hnext later

/-- One script, and a configuration in which the names come due together with everything. -/
def withConfig : Look := fun path =>
  if path = "user.toml" then .text "[analysis]\nlocal_delay_ms=1000"
  else if path = "a.ssl" then .text "procedure p; end"
  else .missing

/-- The script is watched while it gets two more contents. -/
theorem printsAsAnalyze_run_twice :
    PrintsAsAnalyze withConfig "user.toml" none false "a.ssl" { analysis := { localDelay := 1000 } }
      "procedure p; end" ["procedure q begin", ""]
      (run withConfig "user.toml" ["watch", "a.ssl"] ["procedure q begin", ""]) := by
  have hparse : CommandLine.parse ["watch", "a.ssl"] = .ok ⟨none, false, .watch "a.ssl" 200⟩ := by
    decide
  have htoml : (Config.ofToml "[analysis]\nlocal_delay_ms=1000").toOption =
      some { analysis := { localDelay := 1000 } } := by decide +kernel
  have hconfig : loadConfig withConfig "user.toml" none =
      .ok { analysis := { localDelay := 1000 } } := by
    unfold loadConfig
    simp [withConfig, FileState.text?, htoml]
  exact printsAsAnalyze_run "user.toml" _ hparse hconfig (.inr (by decide)) rfl

end Program

end ScriptDesk
