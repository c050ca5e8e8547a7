import ScriptDesk.Proofs.Record

/-!
# ScriptDesk.Proofs.NameTables

An analysis has two halves: the name tables (procedures, macros, variable blocks), and what is
said of the text as a whole (the diagnostics and the two flags). Whether a pass is provisional
decides about the second half, and whether it failed decides about the first one:

* a provisional pass leaves the diagnostics and the flags of what is on record, with the status
  and the need for an analysis (`diagnostics_analysisOf`);
* a failed pass leaves the name tables (`nameTables_analysisOf`);
* a failed provisional pass leaves all of it (`analysisOf_failure`), also where a failure is on
  record already.

So the name tables on record are at all times those of the last pass that succeeded, however
many failed since (`nameTables_run`).
-/

namespace ScriptDesk

open Script (LineRange Procedure Macro)

/-- The names that an analysis makes known. -/
structure NameTables where
  procedures : List Procedure
  macros : List Macro
  blocks : List LineRange

namespace Analysis

/-- The name tables of an analysis. -/
def nameTables (a : Analysis) : NameTables := ⟨a.procedures, a.macros, a.blocks⟩

@[simp] theorem nameTables_withNamesOf (base names : Analysis) :
    (base.withNamesOf names).nameTables = names.nameTables := rfl

@[simp] theorem nameTables_afterFailure (prior : Option Analysis) (failure : Failure) :
    (afterFailure prior failure).nameTables = (prior.getD {}).nameTables := rfl

/-- An analysis takes over its own names without a change. -/
theorem withNamesOf_eq_self {base names : Analysis} (h : names.nameTables = base.nameTables) :
    base.withNamesOf names = base := by
  simp only [nameTables, NameTables.mk.injEq] at h
  obtain ⟨hprocedures, hmacros, hblocks⟩ := h
  simp [withNamesOf, hprocedures, hmacros, hblocks]

end Analysis

namespace Tracking

variable {t : Tracking} {base : Analysis} {mode : Mode}

/-- The name tables on record. As long as nothing is on record they are empty. -/
def nameTables (t : Tracking) : NameTables := (t.analysis.getD {}).nameTables

/-! ## What goes on record for an outcome -/

/-- The names come from the pass, unless it failed. -/
theorem nameTables_analysisOf (t : Tracking) (mode : Mode) (outcome : Outcome) :
    (t.analysisOf mode outcome).nameTables =
      match outcome with
      | .ok found => found.nameTables
      | .error _ => t.nameTables := by
  unfold analysisOf nameTables
  cases outcome with
  | ok found | error failure =>
    cases t.analysis with
    | none => rfl
    | some base =>
      dsimp only
      split <;> rfl

/-- A provisional pass says nothing of the text as a whole. -/
theorem diagnostics_analysisOf (hprovisional : t.isSettledBy mode = false)
    (hbase : t.analysis = some base) (outcome : Outcome) :
    (t.analysisOf mode outcome).diagnostics = base.diagnostics ∧
      (t.analysisOf mode outcome).parsed = base.parsed ∧
        (t.analysisOf mode outcome).hasError = base.hasError := by
  simp [analysisOf, hbase, hprovisional, Analysis.withNamesOf]

/-- A failed provisional pass says nothing at all. -/
theorem analysisOf_failure (hprovisional : t.isSettledBy mode = false)
    (hbase : t.analysis = some base) (failure : Failure) :
    t.analysisOf mode (.error failure) = base := by
  have hnames : (Analysis.afterFailure (some base) failure).nameTables = base.nameTables := rfl
  simpa [analysisOf, hbase, hprovisional] using Analysis.withNamesOf_eq_self hnames

/-! ## A completion that goes on record -/

/-- What a completion leaves as it was when it goes on record, and what it brings. -/
structure TouchesOnly (t : Tracking) (done : Completion) (provisional : Bool) (after : Tracking) :
    Prop where
  /-- Minimal passes are provisional while full analysis is on. -/
  provisional_iff : provisional = true ↔ done.mode = .minimal ∧ t.enabled = true
  /-- A provisional pass leaves the status and the need for an analysis, -/
  pending : provisional = true →
    after.status = t.status ∧ after.needsAnalysis = t.needsAnalysis
  /-- and of what is on record all but the names. -/
  kept : provisional = true → ∀ base, t.analysis = some base →
    ∃ a, after.analysis = some a ∧ a.diagnostics = base.diagnostics ∧ a.parsed = base.parsed ∧
      a.hasError = base.hasError
  /-- The names are those of the pass if it succeeded, -/
  found : ∀ found, done.outcome = .ok found →
    ∃ a, after.analysis = some a ∧ a.nameTables = found.nameTables
  /-- and stay as they are if it failed. -/
  failed : ∀ failure, done.outcome = .error failure →
    ∃ a, after.analysis = some a ∧ a.nameTables = t.nameTables
  /-- A failure that is not provisional is told as the only diagnostic. -/
  told : ∀ failure, done.outcome = .error failure → provisional = false →
    ∃ a, after.analysis = some a ∧ a.parsed = false ∧ a.hasError = true ∧
      a.diagnostics = [⟨.error, none, 0, 0, 0, failure.message⟩]
  /-- One that is provisional leaves what is on record. -/
  untouched : ∀ failure, done.outcome = .error failure → provisional = true →
    ∀ base, t.analysis = some base → after.analysis = some base

theorem isSettledBy_eq_false : t.isSettledBy mode = false ↔ mode = .minimal ∧ t.enabled = true := by
  cases mode <;> simp [isSettledBy]

/-- A completion that goes on record is applied to the document, with no pass noted. -/
theorem settle_of_applied {done : Completion} {shown notify provisional : Bool}
    (h : (t.settle done shown).1 = .applied notify provisional) :
    provisional = !t.isSettledBy done.mode ∧
      ∃ inFlight, (t.settle done shown).2 =
        ({ t with inFlight } : Tracking).apply ⟨done.version, done.mode⟩ done.outcome shown := by
  obtain ⟨inFlight, hend⟩ := t.noteEnd_eq done.version
  rcases t.settle_outcomes done shown with ⟨-, heq⟩ | ⟨-, -, heq⟩ | ⟨-, -, heq⟩
  · simp [heq] at h
  · simp [heq] at h
  · rw [heq] at h ⊢
    have hprovisional : (!t.isSettledBy done.mode) = provisional := (Settlement.applied.inj h).2
    exact ⟨hprovisional.symm, inFlight, by rw [hend]⟩

theorem touchesOnly_of_applied {done : Completion} {shown notify provisional : Bool}
    (h : (t.settle done shown).1 = .applied notify provisional) :
    TouchesOnly t done provisional (t.settle done shown).2 := by
  obtain ⟨hprovisional, inFlight, hafter⟩ := settle_of_applied h
  have hsettled : ∀ {b}, provisional = b → t.isSettledBy done.mode = !b := by
    rintro b rfl
    rw [hprovisional, Bool.not_not]
  have hnames := nameTables_analysisOf t done.mode done.outcome
  -- The note of a pass has no part in what goes on record.
  have hanalysis : (t.settle done shown).2.analysis =
      some (t.analysisOf done.mode done.outcome) := by rw [hafter]; rfl
  constructor
  case provisional_iff => rw [hprovisional, Bool.not_eq_true', isSettledBy_eq_false]
  case pending =>
    intro hp
    have hnot : ({ t with inFlight } : Tracking).isSettledBy done.mode = false := hsettled hp
    simp [hafter, apply, hnot]
  case kept =>
    intro hp base hbase
    exact ⟨_, hanalysis, diagnostics_analysisOf (hsettled hp) hbase _⟩
  case found =>
    intro found hfound
    rw [hfound] at hnames
    exact ⟨_, hanalysis, hfound ▸ hnames⟩
  case failed =>
    intro failure hfailure
    rw [hfailure] at hnames
    exact ⟨_, hanalysis, hfailure ▸ hnames⟩
  case told =>
    intro failure hfailure hp
    have hresult := analysisOf_of_isSettledBy (hsettled hp) done.outcome
    rw [hresult, hfailure] at hanalysis
    exact ⟨_, hanalysis, rfl, rfl, rfl⟩
  case untouched =>
    intro failure hfailure hp base hbase
    rw [hanalysis, hfailure, analysisOf_failure (hsettled hp) hbase]

/-! ## Any calls -/

/-- What a pass that succeeded found, if the call puts it on record. -/
def found? (t : Tracking) : Call → Option Analysis
  | .settle done shown =>
    match (t.settle done shown).1, done.outcome with
    | .applied _ _, .ok found => some found
    | _, _ => none
  | _ => none

/-- What was found by the passes that succeeded and went on record, in that order. -/
def finds (t : Tracking) : List Call → List Analysis
  | [] => []
  | c :: calls => (t.found? c).toList ++ (t.perform c).finds calls

/-- A call changes the names only to those of a pass that succeeded. -/
theorem nameTables_perform (t : Tracking) (c : Call) :
    (t.perform c).nameTables = ((t.found? c).map (·.nameTables)).getD t.nameTables := by
  have hsame : ∀ t' : Tracking, t'.analysis = t.analysis → t'.nameTables = t.nameTables := by
    intro t' h
    rw [nameTables, h, nameTables]
  cases c with
  | noteEdit | invalidate | noteStart mode => rfl
  | setEnabled enabled =>
    refine hsame _ ?_
    unfold perform setEnabled
    dsimp only
    split <;> rfl
  | settle done shown =>
    unfold perform found?
    dsimp only
    cases hs : (t.settle done shown).1 with
    | applied notify provisional =>
      have htouches := touchesOnly_of_applied hs
      cases hout : done.outcome with
      | ok found =>
        obtain ⟨a, ha, hnames⟩ := htouches.found found hout
        simpa [nameTables, ha] using hnames
      | error failure =>
        obtain ⟨a, ha, hnames⟩ := htouches.failed failure hout
        simpa [nameTables, ha] using hnames
    | stale =>
      obtain ⟨inFlight, hafter⟩ := settle_of_stale hs
      rw [hafter]
      rfl
    | unrecognized => rw [settle_of_unrecognized hs]; rfl
    | closed =>
      rcases t.settle_outcomes done shown with ⟨-, heq⟩ | ⟨-, -, heq⟩ | ⟨-, -, heq⟩ <;>
        simp [heq] at hs

theorem finds_append (t : Tracking) (calls more : List Call) :
    t.finds (calls ++ more) = t.finds calls ++ (t.run calls).finds more := by
  induction calls generalizing t with
  | nil => rfl
  | cons c calls ih =>
    have hrun : t.run (c :: calls) = (t.perform c).run calls := rfl
    simp [finds, ih, hrun]

/-- The names on record are those that the last successful pass found. -/
theorem nameTables_run (t : Tracking) (calls : List Call) :
    (t.run calls).nameTables =
      ((t.finds calls).getLast?.map (·.nameTables)).getD t.nameTables := by
  induction calls generalizing t with
  | nil => rfl
  | cons c calls ih =>
    have hrun : t.run (c :: calls) = (t.perform c).run calls := rfl
    rw [hrun, ih, nameTables_perform, finds, List.getLast?_append]
    cases (finds (t.perform c) calls).getLast? <;> cases t.found? c <;> rfl

/-- Passes that all fail find nothing. -/
theorem finds_of_failures {calls : List Call}
    (h : ∀ done shown, .settle done shown ∈ calls → ∃ failure, done.outcome = .error failure) :
    t.finds calls = [] := by
  induction calls generalizing t with
  | nil => rfl
  | cons c calls ih =>
    have hrest := ih (t := t.perform c) fun done shown hmem =>
      h done shown (List.mem_cons_of_mem _ hmem)
    have hnone : t.found? c = none := by
      cases c with
      | settle done shown =>
        obtain ⟨failure, hfailure⟩ := h done shown List.mem_cons_self
        unfold found?
        dsimp only
        rw [hfailure]
        cases (t.settle done shown).1 <;> rfl
      | noteEdit | invalidate | setEnabled enabled | noteStart mode => rfl
    simp [finds, hrest, hnone]

/-- What passes may touch of what is on record. -/
structure KeepsLayers (t : Tracking) : Prop where
  /-- A completion that goes on record touches only what it may. -/
  applied : ∀ done shown notify provisional,
    (t.settle done shown).1 = .applied notify provisional →
      TouchesOnly t done provisional (t.settle done shown).2
  /-- Through any number of failures the names stay those of the last pass that succeeded and
  went on record; if none did, those that were there before. -/
  failures : ∀ calls more,
    (∀ done shown, .settle done shown ∈ more → ∃ failure, done.outcome = .error failure) →
      (t.run (calls ++ more)).nameTables =
        ((t.finds calls).getLast?.map (·.nameTables)).getD t.nameTables

/-- Provisional and failed passes touch only what they may. -/
theorem keepsLayers (t : Tracking) : KeepsLayers t where
  applied _ _ _ _ := touchesOnly_of_applied
  failures calls more h := by
    rw [nameTables_run, finds_append, finds_of_failures h, List.append_nil]

end Tracking

end ScriptDesk
