import ScriptDesk.Proofs.Mirror

/-!
# ScriptDesk.Proofs.Layers

Every analysis on record is well formed (`Editor.wellFormed_on_record`), whatever the
analyzers do. The check is made once, at the end of a pass. What goes on record after
that may be layered, any number of times: names of one analysis with the diagnostics
of another, or a failure over the names that were known.

A layer takes the name tables as a whole from one analysis, and the diagnostics with
the error flag as a whole from another or from a failure. Each condition on an analysis
looks at one of these two parts only, so layers of well-formed analyses are well formed
(`Tracking.wellFormed_analysisOf`).
-/

namespace ScriptDesk

/-! ## Layers -/

namespace Analysis

theorem wellFormed_empty : WellFormed {} := ⟨nofun, nofun, nofun, nofun, nofun⟩

/-- A failure has no place, and it is flagged. -/
theorem wellFormed_afterFailure {prior : Option Analysis}
    (h : ∀ a, prior = some a → a.WellFormed) (failure : Failure) :
    (afterFailure prior failure).WellFormed := by
  have hnames : (prior.getD {}).WellFormed := by
    cases prior with
    | none => exact wellFormed_empty
    | some a => exact h a rfl
  refine ⟨hnames.named, hnames.bodies, hnames.blocks, ?_, ?_⟩
  · intro d hd _
    rw [List.mem_singleton.1 hd]
  · intro _ _ _
    rfl

theorem WellFormed.withNamesOf {base names : Analysis} (hb : base.WellFormed)
    (hn : names.WellFormed) : (base.withNamesOf names).WellFormed :=
  ⟨hn.named, hn.bodies, hn.blocks, hb.placed, hb.flagged⟩

end Analysis

namespace Tracking

variable {t : Tracking} {outcome : Outcome}

theorem wellFormed_analysisOf (ht : ∀ a, t.analysis = some a → a.WellFormed)
    (hout : ∀ a, outcome = .ok a → a.WellFormed) (mode : Mode) :
    (t.analysisOf mode outcome).WellFormed := by
  have hfailed (failure : Failure) : (Analysis.afterFailure t.analysis failure).WellFormed :=
    Analysis.wellFormed_afterFailure ht failure
  unfold analysisOf
  cases outcome with
  | ok a =>
    have ha := hout a rfl
    dsimp only
    split
    · next base hbase =>
      split
      · exact ha
      · exact (ht base hbase).withNamesOf ha
    · exact ha
  | error failure =>
    dsimp only
    split
    · next base hbase =>
      split
      · exact hfailed failure
      · exact (ht base hbase).withNamesOf (hfailed failure)
    · exact hfailed failure

theorem wellFormed_settle {done : Completion} (ht : ∀ a, t.analysis = some a → a.WellFormed)
    (hout : ∀ a, done.outcome = .ok a → a.WellFormed) (shown : Bool) :
    ∀ a, (t.settle done shown).2.analysis = some a → a.WellFormed := by
  obtain ⟨inFlight, hend⟩ := t.noteEnd_eq done.version
  have hended : ∀ a, (t.noteEnd done.version).analysis = some a → a.WellFormed := by
    rw [hend]
    exact ht
  rcases t.settle_outcomes done shown with ⟨-, heq⟩ | ⟨-, -, heq⟩ | ⟨-, -, heq⟩ <;> rw [heq]
  · exact ht
  · exact hended
  · intro a ha
    obtain rfl : _ = a := Option.some.inj ha
    exact wellFormed_analysisOf hended hout done.mode

end Tracking

/-! ## Documents -/

namespace Lane

/-- What is on record is well formed, and what goes on record next can be. -/
structure Proper (l : Lane) : Prop where
  recorded : ∀ a, l.session.tracking.analysis = some a → a.WellFormed
  completed : ∀ done, l.slot = .finished done → ∀ a, done.outcome = .ok a → a.WellFormed

variable {l l' : Lane}

theorem Proper.of_eq (h : l.Proper) (hs : l'.slot = l.slot)
    (ha : l'.session.tracking.analysis = l.session.tracking.analysis) : l'.Proper :=
  ⟨ha ▸ h.recorded, hs ▸ h.completed⟩

theorem Proper.launch (h : l.Proper) (task : Nat) (mode : Mode) : (l.launch task mode).Proper where
  recorded := by rw [session_launch]; exact h.recorded
  completed := by rw [slot_launch]; nofun

theorem Requests.proper {mode : Mode} (hreq : Requests mode l l') (h : l.Proper) : l'.Proper := by
  cases hreq with
  | started task _ => exact h.launch task mode
  | queued => exact h.of_eq rfl rfl

theorem Opened.proper {config : Config} (h : Opened config l) : l.Proper := by
  obtain ⟨id, path, text, shown, hreq⟩ := h
  exact hreq.proper ⟨nofun, nofun⟩

/-- Nothing that is done to a document touches its analysis. -/
theorem Proper.act {policy : Policy} (h : l.Proper) (hact : Act policy l l') : l'.Proper := by
  cases hact with
  | edit now edits =>
    unfold Lane.edit
    dsimp only
    split <;> exact h.of_eq (by simp) (by simp [Tracking.noteEdit])
  | saved now => exact h.of_eq rfl rfl
  | structural now => exact h.of_eq rfl rfl
  | force hreq => exact hreq.proper (h.of_eq rfl rfl)
  | enable on hne hreq =>
    refine hreq.proper (h.of_eq rfl ?_)
    simp [forced, setTracking, Tracking.invalidate, Tracking.setEnabled, hne]
  | activate =>
    obtain ⟨hsession, -, -, hslot⟩ := l.activate_keeps
    exact h.of_eq hslot (by rw [hsession])
  | hide => exact h.of_eq rfl rfl
  | moveCaret position => unfold moveCaret; dsimp only; split <;> exact h.of_eq rfl rfl
  | goBack => unfold replay; split <;> exact h.of_eq rfl rfl
  | goForward => unfold replay; split <;> exact h.of_eq rfl rfl
  | markNext nextMove => exact h.of_eq rfl rfl
  | setRecording on => exact h.of_eq rfl rfl

/-- The end of a pass checks what it found. -/
theorem Proper.finish (h : l.Proper) (analyzer : Analyzer) :
    Proper { l with slot := SingleFlight.finishSlot analyzer l.slot } := by
  refine ⟨h.recorded, fun done hdone a ha => ?_⟩
  cases hslot : l.slot with
  | free =>
    rw [hslot] at hdone
    cases hdone
  | running task snapshot =>
    rw [hslot] at hdone
    cases hdone
    exact Analyzer.wellFormed_of_run_eq_ok ha
  | finished earlier =>
    rw [hslot] at hdone
    cases hdone
    exact h.completed done hslot a ha

theorem Proper.takeIn {done : Completion} (h : l.Proper) (hs : l.slot = .finished done) :
    (l.takeIn done).Proper := by
  obtain ⟨hsession, -, -, hslot, -⟩ := l.takeIn_keeps done
  refine ⟨?_, by rw [hslot]; nofun⟩
  rw [hsession]
  exact Tracking.wellFormed_settle h.recorded (h.completed done hs) l.shown

theorem Proper.advance {known : Analyzer → Prop} (h : l.Proper) (hadv : Advance known l l') :
    l'.Proper := by
  cases hadv with
  | finish analyzer _ => exact h.finish analyzer
  | takeIn done hs => exact h.takeIn hs
  | startQueued task _ _ =>
    refine Proper.launch ?_ task _
    exact h.of_eq rfl rfl
  | startDue task _ _ _ =>
    refine Proper.launch ?_ task _
    exact h.of_eq rfl rfl
  | upToDate _ _ _ => exact h.of_eq rfl rfl

theorem Proper.step {policy : Policy} {known : Analyzer → Prop} (h : l.Proper)
    (hstep : Step policy known l l') : l'.Proper := by
  cases hstep with
  | act hact => exact h.act hact
  | advance hadv => exact h.advance hadv

end Lane

namespace Editor

/-- In every state that the editor reaches, with whatever analyzers, the check finds
nothing wrong with any analysis on record. -/
theorem wellFormed_on_record (config : Config) (commands : List Command) :
    ∀ s ∈ ((new config).run commands).sessions, ∀ a, s.tracking.analysis = some a →
      a.defect? = none := by
  intro s hs a ha
  have hkeeps : Keeps config Lane.Proper ((new config).run commands) :=
    keeps_run_new (fun _ h => Lane.Opened.proper h) (fun _ _ h hstep => h.step hstep)
      (fun c _ => c.uses_any)
  exact Analysis.defect?_eq_none_iff.2 ((hkeeps.lanes s hs).recorded a ha)

/-- A document on which a pass found an error, then one broke down, and then a
provisional one found other names: three layers. -/
def threeLayers : List Command :=
  let pass (analyzer : Analyzer) (now : Time) : List Command := [.finishPass analyzer, .tick now]
  let erroneous : Analysis :=
    { diagnostics := [⟨.error, none, 1, 1, 1, "cut off"⟩], hasError := true }
  let renamed : Analysis := { procedures := [⟨"q", 1, none, none⟩] }
  [.openDocument none "procedure p"] ++
    pass (fun _ => .found erroneous) 0 ++ [.act ⟨1⟩ .force] ++ pass (fun _ => .brokeDown none) 0 ++
    [.act ⟨1⟩ (.edit 0 []), .tick (milliseconds 500)] ++
    pass (fun _ => .found renamed) (milliseconds 500)

/-- The names come from the last pass, the diagnostic from the breakdown. -/
theorem wellFormed_on_record_threeLayers :
    ∃ s ∈ ((new {}).run threeLayers).sessions, ∃ a, s.tracking.analysis = some a ∧
      a.procedures.map (·.name) = ["q"] ∧ a.errorCount = 1 ∧ a.defect? = none := by
  let s := ((new {}).run threeLayers).sessions.head (by decide)
  have hs : s ∈ ((new {}).run threeLayers).sessions := List.head_mem _
  have hall : s.tracking.analysis.all
      (fun a => a.procedures.map (·.name) = ["q"] ∧ a.errorCount = 1) = true := by rfl
  obtain ⟨a, ha⟩ : ∃ a, s.tracking.analysis = some a :=
    Option.isSome_iff_exists.1 (show s.tracking.analysis.isSome = true by rfl)
  rw [ha, Option.all_some, decide_eq_true_eq] at hall
  exact ⟨s, hs, a, ha, hall.1, hall.2, wellFormed_on_record {} threeLayers s hs a ha⟩

end Editor

end ScriptDesk
