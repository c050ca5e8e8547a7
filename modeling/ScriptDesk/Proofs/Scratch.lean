import ScriptDesk.Proofs.Builtin
import ScriptDesk.Proofs.Coverage
import ScriptDesk.Proofs.Mirror
import ScriptDesk.Proofs.Rest

/-!
# ScriptDesk.Proofs.Scratch

Analysis as it goes along agrees with analysis from scratch. With the built-in
analyzer, the analysis on record of a document that needs none is the one that a
single pass over its text would find, whatever passes came before. So all that
an idle editor shows of a document depends on the file, the text and the mode of
the document, and not on how it came to them.

The passes are fed with earlier results, layered over each other. This does no
harm because all of them are of the same file (`Lane.Faithful.own`), and because
a pass that settles the document was started on its present text
(`Lane.Reads`).
-/

namespace ScriptDesk

/-- The analyzer is the one that goes with the application. -/
def IsBuiltin (analyzer : Analyzer) : Prop := analyzer = builtinAnalyzer

/-- The one pass over a text of which nothing was known before. -/
def scratch (text : String) (path : Option String) (mode : Mode) : Outcome :=
  builtinAnalyzer.run { text, file := path, mode, prior := none }

theorem exists_scratch (text : String) (path : Option String) (mode : Mode) :
    ∃ a, scratch text path mode = .ok a :=
  exists_run_builtinAnalyzer _ nofun

theorem isLocal_of_scratch {text : String} {path : Option String} {mode : Mode} {a : Analysis}
    (h : scratch text path mode = .ok a) : a.IsLocal path :=
  isLocal_of_run_builtinAnalyzer rfl h

namespace Lane

/-- What the pass on a document reads, or has read: a text of its file, and its
present text if the pass is on its present version. -/
def Reads (s : Session) : Slot → Prop
  | .free => True
  | .running _ snapshot => snapshot.request.file = s.path ∧
      (∀ a, snapshot.request.prior = some a → a.IsLocal s.path) ∧
      (snapshot.version = s.tracking.version → snapshot.request.text = s.text)
  | .finished done => ∃ text a, scratch text s.path done.mode = .ok a ∧ done.outcome = .ok a ∧
      (done.version = s.tracking.version → text = s.text)

/-- The document, its analysis and the pass on it are of one file, and an analysis
that settles the document is the one found from scratch. -/
structure Faithful (l : Lane) : Prop where
  hasFile : l.session.tracking.hasFile = l.session.path.isSome
  own : ∀ a, l.session.tracking.analysis = some a → a.IsLocal l.session.path
  reads : Reads l.session l.slot
  settled : l.session.tracking.needsAnalysis = false → ∃ a,
    scratch l.session.text l.session.path l.session.tracking.mode = .ok a ∧
      l.session.tracking.analysis = some a

variable {l l' : Lane}

/-- Everything but the text, the version, the mode and the analysis is irrelevant,
and an analysis may become needed. -/
theorem Faithful.of_eq (h : l.Faithful) (hs : l'.slot = l.slot)
    (hp : l'.session.path = l.session.path) (ht : l'.session.text = l.session.text)
    (hv : l'.session.tracking.version = l.session.tracking.version)
    (he : l'.session.tracking.enabled = l.session.tracking.enabled)
    (hf : l'.session.tracking.hasFile = l.session.tracking.hasFile)
    (ha : l'.session.tracking.analysis = l.session.tracking.analysis)
    (hn : l'.session.tracking.needsAnalysis = false → l.session.tracking.needsAnalysis = false) :
    l'.Faithful where
  hasFile := by rw [hf, hp]; exact h.hasFile
  own a hr := by rw [hp]; exact h.own a (ha ▸ hr)
  reads := by
    have hreads := h.reads
    rw [hs]
    cases hslot : l.slot <;> rw [hslot] at hreads <;> simp only [Reads, hp, hv, ht] at hreads ⊢
    · exact hreads
    · exact hreads
  settled hn' := by
    rw [ht, hp, ha, Tracking.mode, he]
    exact h.settled (hn hn')

/-- A new version makes the pass under way one on an old text. -/
theorem Faithful.bump (h : l.Faithful) (ha : l.session.tracking.Agrees l.slot.stamp?)
    (hs : l'.slot = l.slot) (hp : l'.session.path = l.session.path)
    (hv : l.session.tracking.version < l'.session.tracking.version)
    (hf : l'.session.tracking.hasFile = l.session.tracking.hasFile)
    (hr : l'.session.tracking.analysis = l.session.tracking.analysis)
    (hn : l'.session.tracking.needsAnalysis = true) : l'.Faithful where
  hasFile := by rw [hf, hp]; exact h.hasFile
  own a hr' := by rw [hp]; exact h.own a (hr ▸ hr')
  reads := by
    have hreads := h.reads
    have hold : ∀ p, l.slot.stamp? = some p → p.version < l'.session.tracking.version :=
      fun p hp => Nat.lt_of_le_of_lt (Tracking.version_le_of_isOlder (ha.passOld p hp)) hv
    rw [hs]
    cases hslot : l.slot with
    | free => trivial
    | running task snapshot =>
      rw [hslot] at hreads hold
      refine ⟨hp ▸ hreads.1, hp ▸ hreads.2.1, fun heq => ?_⟩
      exact absurd heq (Nat.ne_of_lt (hold _ rfl))
    | finished done =>
      rw [hslot] at hreads hold
      obtain ⟨text, a, hscratch, hout, -⟩ := hreads
      refine ⟨text, a, hp ▸ hscratch, hout, fun heq => ?_⟩
      exact absurd heq (Nat.ne_of_lt (hold _ rfl))
  settled hn' := by
    rw [hn] at hn'
    contradiction

/-! ## Requests -/

theorem Faithful.launch (h : l.Faithful) (task : Nat) (mode : Mode) :
    (l.launch task mode).Faithful where
  hasFile := by rw [session_launch]; exact h.hasFile
  own := by rw [session_launch]; exact h.own
  reads := by
    rw [session_launch, slot_launch]
    exact ⟨rfl, h.own, fun _ => rfl⟩
  settled := by rw [session_launch]; exact h.settled

theorem Requests.faithful {mode : Mode} (hreq : Requests mode l l') (h : l.Faithful) :
    l'.Faithful := by
  cases hreq with
  | started task _ => exact h.launch task mode
  | queued => exact h.of_eq rfl rfl rfl rfl rfl rfl rfl id

theorem Opened.faithful {config : Config} (h : Opened config l) : l.Faithful := by
  obtain ⟨id, path, text, shown, hreq⟩ := h
  exact hreq.faithful ⟨rfl, nofun, trivial, nofun⟩

/-! ## Steps -/

theorem Faithful.forced (h : l.Faithful) : l.forced.Faithful :=
  h.of_eq rfl rfl rfl rfl rfl rfl rfl nofun

theorem Faithful.act {policy : Policy} (h : l.Faithful)
    (ha : l.session.tracking.Agrees l.slot.stamp?) (hact : Act policy l l') : l'.Faithful := by
  cases hact with
  | edit now edits =>
    have hv : l.session.tracking.version < l.session.tracking.version + 1 := Nat.lt_succ_self _
    unfold edit
    dsimp only
    split
    · exact h.bump ha rfl rfl hv rfl rfl rfl
    · refine h.bump ha ?_ ?_ ?_ ?_ ?_ ?_ <;> simp [Tracking.noteEdit]
  | saved now => exact h.of_eq rfl rfl rfl rfl rfl rfl rfl nofun
  | structural now => exact h.of_eq rfl rfl rfl rfl rfl rfl rfl nofun
  | force hreq => exact hreq.faithful h.forced
  | enable on hne hreq =>
    refine hreq.faithful (Faithful.forced ?_)
    have hset : l.session.tracking.setEnabled on =
        { l.session.tracking with
          enabled := on, version := l.session.tracking.version + 1, needsAnalysis := true } :=
      if_neg hne
    rw [hset]
    exact h.bump ha rfl rfl (Nat.lt_succ_self _) rfl rfl rfl
  | activate =>
    unfold activate tellMissed
    dsimp only
    split <;> exact h.of_eq rfl rfl rfl rfl rfl rfl rfl id
  | hide => exact h.of_eq rfl rfl rfl rfl rfl rfl rfl id
  | moveCaret position =>
    unfold moveCaret
    dsimp only
    split <;> exact h.of_eq rfl rfl rfl rfl rfl rfl rfl id
  | goBack => unfold replay; split <;> exact h.of_eq rfl rfl rfl rfl rfl rfl rfl id
  | goForward => unfold replay; split <;> exact h.of_eq rfl rfl rfl rfl rfl rfl rfl id
  | markNext nextMove => exact h.of_eq rfl rfl rfl rfl rfl rfl rfl id
  | setRecording on => exact h.of_eq rfl rfl rfl rfl rfl rfl rfl id

/-- When the pass ends, its outcome is what it would have been from scratch. -/
theorem Faithful.finish (h : l.Faithful) :
    Faithful { l with slot := SingleFlight.finishSlot builtinAnalyzer l.slot } := by
  refine ⟨h.hasFile, h.own, ?_, h.settled⟩
  have hreads := h.reads
  cases hslot : l.slot with
  | free => trivial
  | finished done =>
    rw [hslot] at hreads
    exact hreads
  | running task snapshot =>
    rw [hslot] at hreads
    obtain ⟨hfile, hprior, htext⟩ := hreads
    obtain ⟨a, ha⟩ := exists_scratch snapshot.request.text l.session.path snapshot.mode
    refine ⟨snapshot.request.text, a, ha, ?_, htext⟩
    rw [← ha, scratch, ← hfile]
    exact run_builtinAnalyzer_of_local (hfile ▸ hprior)

/-- Layering keeps the analysis on record within the file. -/
theorem isLocal_analysisOf {t : Tracking} {path : Option String} {mode : Mode} {a : Analysis}
    (h : a.IsLocal path) : (t.analysisOf mode (.ok a)).IsLocal path := by
  unfold Tracking.analysisOf
  dsimp only
  cases t.analysis with
  | none => exact h
  | some base => cases hs : t.isSettledBy mode <;> exact h

theorem Faithful.takeIn {done : Completion} (h : l.Faithful)
    (ha : l.session.tracking.Agrees l.slot.stamp?) (hs : l.slot = .finished done) :
    (l.takeIn done).Faithful := by
  have hreads := h.reads
  rw [hs] at ha hreads
  obtain ⟨text, a, hscratch, hout, htext⟩ := hreads
  obtain ⟨hsession, -, -, hslot, -⟩ := l.takeIn_keeps done
  obtain ⟨hv, he, hf⟩ := Tracking.settle_keeps ha l.shown
  rcases Tracking.settle_cases ha l.shown with ⟨hsettle, hfresh⟩ | ⟨hsettle, -, -⟩
  · rw [hsettle] at hsession
    dsimp only at hsession
    refine ⟨?_, ?_, ?_, ?_⟩
    · rw [hsession]
      exact h.hasFile
    · intro b hb
      rw [hsession] at hb ⊢
      rw [← Option.some.inj hb, hout]
      exact isLocal_analysisOf (isLocal_of_scratch hscratch)
    · rw [hslot]
      trivial
    · -- Only a pass on the document as it is leaves it settled.
      intro hn
      rw [hsession] at hn ⊢
      have hcurrent : (⟨done.version, done.mode⟩ : Stamp) = l.session.tracking.current :=
        Tracking.eq_current_of_apply (t := l.session.tracking.ended) (ha.passOld _ rfl) hfresh
          ha.settled hn
      simp only [Tracking.current, Stamp.mk.injEq] at hcurrent
      obtain ⟨hversion, hmode⟩ := hcurrent
      have hset : l.session.tracking.ended.isSettledBy done.mode = true :=
        hmode ▸ l.session.tracking.isSettledBy_mode
      refine ⟨a, ?_, ?_⟩
      · rw [htext hversion, hmode] at hscratch
        exact hscratch
      · have hfound : l.session.tracking.ended.analysisOf done.mode done.outcome = a := by
          rw [hout]
          exact Tracking.analysisOf_of_isSettledBy hset (.ok a)
        exact congrArg some hfound
  · rw [hsettle] at hsession
    refine ⟨?_, ?_, ?_, ?_⟩
    · rw [hsession]
      exact h.hasFile
    · rw [hsession]
      exact h.own
    · rw [hslot]
      trivial
    · rw [hsession]
      exact h.settled

theorem Faithful.advance (h : l.Faithful) (ha : l.session.tracking.Agrees l.slot.stamp?)
    (hadv : Advance IsBuiltin l l') : l'.Faithful := by
  cases hadv with
  | finish analyzer hb =>
    rw [show analyzer = builtinAnalyzer from hb]
    exact h.finish
  | takeIn done hs => exact h.takeIn ha hs
  | startQueued task _ _ =>
    refine Faithful.launch ?_ task _
    exact h.of_eq rfl rfl rfl rfl rfl rfl rfl id
  | startDue task _ _ _ =>
    refine Faithful.launch ?_ task _
    exact h.of_eq rfl rfl rfl rfl rfl rfl rfl id
  | upToDate _ _ _ => exact h.of_eq rfl rfl rfl rfl rfl rfl rfl id

theorem Faithful.step {policy : Policy} (h : l.Faithful) (hm : l.Minded)
    (hstep : Step policy IsBuiltin l l') : l'.Faithful := by
  cases hstep with
  | act hact => exact h.act hm.agrees hact
  | advance hadv => exact h.advance hm.agrees hadv

/-- The passes change neither the file nor the text nor the mode of a document. -/
theorem Advance.keeps {known : Analyzer → Prop} (h : Advance known l l') :
    l'.session.path = l.session.path ∧ l'.session.text = l.session.text ∧
      l'.session.tracking.enabled = l.session.tracking.enabled := by
  cases h with
  | finish analyzer _ => exact ⟨rfl, rfl, rfl⟩
  | takeIn done _ =>
    obtain ⟨hsession, -⟩ := l.takeIn_keeps done
    rw [hsession]
    rcases Tracking.settle_forms l.session.tracking done l.shown with
      ⟨_, hs⟩ | ⟨_, hs⟩ | ⟨_, _, hs⟩ <;> rw [hs] <;> exact ⟨rfl, rfl, rfl⟩
  | startQueued task _ _ => rw [session_launch]; exact ⟨rfl, rfl, rfl⟩
  | startDue task _ _ _ => rw [session_launch]; exact ⟨rfl, rfl, rfl⟩
  | upToDate _ _ _ => exact ⟨rfl, rfl, rfl⟩

theorem Advance.keeps_all {known : Analyzer → Prop}
    (h : Relation.ReflTransGen (Advance known) l l') :
    l'.session.path = l.session.path ∧ l'.session.text = l.session.text ∧
      l'.session.tracking.enabled = l.session.tracking.enabled := by
  induction h with
  | refl => exact ⟨rfl, rfl, rfl⟩
  | tail _ hlast ih =>
    obtain ⟨hp, ht, he⟩ := hlast.keeps
    exact ⟨hp.trans ih.1, ht.trans ih.2.1, he.trans ih.2.2⟩

end Lane

namespace Editor

theorem faithful_run (config : Config) {commands : List Command}
    (hc : ∀ c ∈ commands, c.Uses IsBuiltin) :
    Keeps config (fun l => l.Minded ∧ l.Faithful) ((new config).run commands) :=
  keeps_run_new (fun _ h => ⟨h.minded, h.faithful⟩)
    (fun _ _ h hstep => ⟨h.1.step hstep, h.2.step h.1 hstep⟩) hc

/-! ## Idle editors -/

/-- Of an idle editor no document has deadlines, waits, or has a pass on it. -/
theorem lane_of_isIdle {e : Editor} (h : e.isIdle = true) (s : Session) :
    (e.lane s).deadlines = {} ∧ (e.lane s).waiting = [] ∧ (e.lane s).slot = .free := by
  have hwork := (isIdle_iff e).1 h
  rw [workLeft_eq] at hwork
  have hfree : e.flight.isBusy = false := by
    cases hb : e.flight.isBusy with
    | false => rfl
    | true =>
      rw [hb, Bool.toNat_true] at hwork
      omega
  have hqueue : e.flight.queue = [] := List.length_eq_zero_iff.1 (by omega)
  refine ⟨?_, ?_, slot_lane_of_free hfree s⟩
  · have hcount : e.debouncer.armedCount = 0 := by omega
    exact Debouncer.deadlines_of_armedCount_eq_zero hcount s.id
  · simp [lane, share, SingleFlight.waiting, hqueue]

/-- What an editor shows of a document is what a single pass finds in its text. -/
structure ShowsScratch (e : Editor) (id : DocumentId) (path : Option String) (text : String)
    (enabled : Bool) (a : Analysis) : Prop where
  found : scratch text path (if enabled then .full else .minimal) = .ok a
  analysis : e.analysis? id = some a
  status : e.status? id = some (.ofAnalysis a enabled path.isSome)
  folds : e.folds id = a.folds path
  outline : e.outline id = a.outline

theorem showsScratch_of_isIdle {e : Editor} (he : e.Sound) {s : Session} (hs : s ∈ e.sessions)
    (hm : (e.lane s).Minded) (hf : (e.lane s).Faithful) (hidle : e.isIdle = true) :
    s.tracking.needsAnalysis = false ∧
      ∃ a, e.ShowsScratch s.id s.path s.text s.tracking.enabled a := by
  obtain ⟨hdeadlines, hwaiting, hslot⟩ := lane_of_isIdle hidle s
  have hsettled : s.tracking.needsAnalysis = false := by
    cases hn : s.tracking.needsAnalysis with
    | false => rfl
    | true =>
      cases hm.covered hn with
      | armed h =>
        rw [hdeadlines] at h
        cases he : (e.lane s).session.tracking.enabled <;> simp [Lane.Due, he] at h
      | queued mode h _ =>
        rw [hwaiting] at h
        contradiction
      | inFlight h =>
        rw [hslot] at h
        contradiction
  obtain ⟨a, hfound, ha⟩ := hf.settled hsettled
  have hworking : s.tracking.status ≠ .working := by
    intro hw
    obtain ⟨v, hpass⟩ := hm.agrees.working hw
    rw [hslot] at hpass
    contradiction
  have hstatus := hm.agrees.told hsettled hworking a ha
  have hsession := he.session?_of_mem hs
  have hanalysis : e.analysis? s.id = some a := by
    rw [analysis?, hsession]
    exact ha
  refine ⟨hsettled, a, hfound, hanalysis, ?_, ?_, ?_⟩
  · have hfile : s.tracking.hasFile = s.path.isSome := hf.hasFile
    rw [status?, hsession, ← hfile]
    exact congrArg some hstatus
  · have ha : s.tracking.analysis = some a := ha
    rw [folds, hsession]
    dsimp only
    rw [ha]
    rfl
  · rw [outline, hanalysis]
    rfl

/-- The same is found in the same text. -/
theorem ShowsScratch.eq {e f : Editor} {id other : DocumentId} {path : Option String}
    {text : String} {enabled : Bool} {a b : Analysis} (h : e.ShowsScratch id path text enabled a)
    (h' : f.ShowsScratch other path text enabled b) : a = b :=
  Except.ok.inj (h.found.symm.trans h'.found)

/-! ## Fresh editors -/

/-- The command only waits: it ends the pass under way or tells the time. -/
def Waits : Command → Prop
  | .finishPass analyzer => IsBuiltin analyzer
  | .tick _ => True
  | _ => False

theorem uses_of_waits {c : Command} (h : Waits c) : c.Uses IsBuiltin := by
  cases c <;> first | exact h | trivial

/-- Waiting opens and closes no document. -/
theorem evolves_wait {e : Editor} (he : e.Sound) {commands : List Command}
    (hc : ∀ c ∈ commands, Waits c) :
    Evolves (Lane.Advance IsBuiltin) e (e.run commands) ∧ (e.run commands).ids = e.ids := by
  induction commands generalizing e with
  | nil => exact ⟨.refl _ e, rfl⟩
  | cons c rest ih =>
    have hfirst : Evolves (Lane.Advance IsBuiltin) e (e.perform c).2 ∧
        (e.perform c).2.ids = e.ids := by
      have hc := hc c List.mem_cons_self
      cases c with
      | openDocument path text => contradiction
      | act id action => contradiction
      | finishPass analyzer => exact ⟨evolves_finishPass e analyzer hc, rfl⟩
      | tick now => exact ⟨evolves_tick he now, (Tells.tick he now).ids⟩
    obtain ⟨hrest, hids⟩ := ih (hfirst.1.sound he) fun c h => hc c (List.mem_cons_of_mem _ h)
    exact ⟨hfirst.1.trans hrest, hids.trans hfirst.2⟩

/-- The first document of an editor has its pass at once. -/
theorem sessions_openDocument_new (config : Config) (path : Option String) (text : String) :
    ∃ s, ((new config).openDocument path text).2.sessions = [s] ∧
      s.id = ((new config).openDocument path text).1 ∧ s.path = path ∧ s.text = text ∧
      s.tracking.enabled = config.analysis.enabled := by
  obtain ⟨hsess, -⟩ := lane_start_of_free (e := (new config).withNext path text) rfl
    ((new config).next path text) ((new config).next path text).tracking.mode
  exact ⟨_, hsess, rfl, rfl, rfl, rfl⟩

/-- Once a fresh editor is idle, it shows what is found from scratch. -/
theorem showsScratch_fresh (config : Config) (path : Option String) (text : String)
    {commands : List Command} (hc : ∀ c ∈ commands, Waits c)
    (hidle : (((new config).openDocument path text).2.run commands).isIdle = true) :
    ∃ a, (((new config).openDocument path text).2.run commands).ShowsScratch
      ((new config).openDocument path text).1 path text config.analysis.enabled a := by
  let e := ((new config).openDocument path text).2
  have he : e.Sound := sound_openDocument (sound_new config) path text
  have hkeeps : Keeps config (fun l => l.Minded ∧ l.Faithful) (e.run commands) := by
    have huses : ∀ c ∈ Command.openDocument path text :: commands, c.Uses IsBuiltin := by
      intro c hm
      rcases List.mem_cons.1 hm with rfl | hm
      · trivial
      · exact uses_of_waits (hc c hm)
    exact faithful_run config huses
  obtain ⟨s, hsess, hid, hpath, htext, henabled⟩ := sessions_openDocument_new config path text
  obtain ⟨hevolves, hids⟩ := evolves_wait he hc
  -- The document is still open, and waiting did not change it.
  have hopen : s.id ∈ (e.run commands).ids := by
    rw [hids, Editor.ids, hsess]
    exact List.mem_singleton.2 rfl
  obtain ⟨t, ht, htid⟩ := List.mem_map.1 hopen
  obtain ⟨r, hr, hrid, hsteps⟩ := hevolves.lanes t ht
  rw [hsess, List.mem_singleton] at hr
  subst hr
  obtain ⟨hpath', htext', henabled'⟩ := Lane.Advance.keeps_all hsteps
  have hpath' : t.path = path := hpath'.trans hpath
  have htext' : t.text = text := htext'.trans htext
  have henabled' : t.tracking.enabled = config.analysis.enabled := henabled'.trans henabled
  obtain ⟨hm, hf⟩ := hkeeps.lanes t ht
  obtain ⟨-, a, hshows⟩ := showsScratch_of_isIdle hkeeps.sound ht hm hf hidle
  rw [hpath', htext', henabled', htid, hid] at hshows
  exact ⟨a, hshows⟩

/-- Waiting for the end of the first pass and for one tick is enough. -/
theorem exists_waits_isIdle (config : Config) (path : Option String) (text : String) :
    ∃ commands, (∀ c ∈ commands, Waits c) ∧
      (((new config).openDocument path text).2.run commands).isIdle = true := by
  let e := ((new config).openDocument path text).2
  have he : e.Sound := sound_openDocument (sound_new config) path text
  refine ⟨[.finishPass builtinAnalyzer, .tick 0], ?_, ?_⟩
  · intro c hc
    rcases List.mem_cons.1 hc with rfl | hc
    · rfl
    · rw [List.mem_singleton.1 hc]
      trivial
  · have hwork : e.workLeft ≤ 1 :=
      (start_of_free_cases (e := (new config).withNext path text) rfl
        ((new config).next path text) ((new config).next path text).tracking.mode).1
    have hnext : ∀ t, e.nextWakeup? = some t → t ≤ 0 := by
      intro t ht
      rw [nextWakeup?, (openDocument_keeps (e := new config) path text).2] at ht
      contradiction
    rw [run_eq_round, isIdle_iff]
    change (e.round builtinAnalyzer 0).workLeft = 0
    by_cases hzero : e.workLeft = 0
    · have hle := workLeft_round_le he builtinAnalyzer 0
      omega
    · have hlt := workLeft_round_lt he builtinAnalyzer hzero hnext
      omega

/-- Two editors show the same of a document each. -/
structure ShowSame (e f : Editor) (id other : DocumentId) : Prop where
  analysis : e.analysis? id = f.analysis? other
  status : e.status? id = f.status? other
  folds : e.folds id = f.folds other
  outline : e.outline id = f.outline other

/-- Analysis as it goes along agrees with analysis from scratch. In every state
that the editor reaches with the built-in analyzer, a document that needs no
analysis has on record what a pass over its text finds without prior knowledge;
and an idle editor shows of each document what a fresh editor, with the same
setting, shows of the same file and text once it is idle. -/
theorem agrees_with_scratch (config : Config) (commands : List Command)
    (hc : ∀ c ∈ commands, c.Uses IsBuiltin) {s : Session}
    (hs : s ∈ ((new config).run commands).sessions) :
    (s.tracking.needsAnalysis = false → ∃ a,
        builtinAnalyzer.run ⟨s.text, s.path, s.tracking.mode, none⟩ = .ok a ∧
          s.tracking.analysis = some a) ∧
      (((new config).run commands).isIdle = true → ∀ settings : Config,
        settings.analysis.enabled = s.tracking.enabled →
        let opened := (new settings).openDocument s.path s.text
        (∃ waiting, (∀ c ∈ waiting, Waits c) ∧ (opened.2.run waiting).isIdle = true) ∧
        ∀ waiting, (∀ c ∈ waiting, Waits c) → (opened.2.run waiting).isIdle = true →
          ShowSame ((new config).run commands) (opened.2.run waiting) s.id opened.1) := by
  have hkeeps := faithful_run config hc
  obtain ⟨hm, hf⟩ := hkeeps.lanes s hs
  refine ⟨hf.settled, fun hidle settings henabled => ?_⟩
  refine ⟨exists_waits_isIdle settings s.path s.text, fun waiting hw hidle' => ?_⟩
  obtain ⟨-, a, hshows⟩ := showsScratch_of_isIdle hkeeps.sound hs hm hf hidle
  obtain ⟨b, hfresh⟩ := showsScratch_fresh settings s.path s.text hw hidle'
  rw [henabled] at hfresh
  have hab := hshows.eq hfresh
  subst hab
  exact
    { analysis := hshows.analysis.trans hfresh.analysis.symm
      status := hshows.status.trans hfresh.status.symm
      folds := hshows.folds.trans hfresh.folds.symm
      outline := hshows.outline.trans hfresh.outline.symm }

/-- After its first pass a document of an editor that is left alone is settled. -/
theorem agrees_with_scratch_after_first_pass :
    ∃ s ∈ ((new {}).run [.openDocument (some "a.scr") "procedure p; end",
        .finishPass builtinAnalyzer, .tick 0]).sessions,
      s.tracking.needsAnalysis = false ∧ ∃ a,
        builtinAnalyzer.run ⟨s.text, s.path, s.tracking.mode, none⟩ = .ok a ∧
          s.tracking.analysis = some a := by
  have hall : ((new {}).run [.openDocument (some "a.scr") "procedure p; end",
      .finishPass builtinAnalyzer, .tick 0]).sessions.all (!·.tracking.needsAnalysis) = true := by
    rfl
  obtain ⟨s, hs⟩ := List.length_pos_iff_exists_mem.1 (show 0 < ((new {}).run
    [.openDocument (some "a.scr") "procedure p; end", .finishPass builtinAnalyzer,
      .tick 0]).sessions.length by decide)
  have hn : s.tracking.needsAnalysis = false := by simpa using List.all_eq_true.1 hall s hs
  refine ⟨s, hs, hn, (agrees_with_scratch {} _ ?_ hs).1 hn⟩
  intro c hc
  simp only [List.mem_cons, List.not_mem_nil, or_false] at hc
  rcases hc with rfl | rfl | rfl
  · trivial
  · exact rfl
  · trivial

end Editor

end ScriptDesk
