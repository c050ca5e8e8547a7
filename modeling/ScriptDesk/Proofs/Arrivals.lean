import Mathlib.Data.List.Pairwise
import ScriptDesk.Proofs.Record

/-!
# ScriptDesk.Proofs.Arrivals

Full analyses of different versions of a document can come in in any order. Every order
drops other ones as late and goes through other records, and yet all of them end with the
same: the newest analysis stands, unless something newer was on record before.

It is enough that two of them can change places (`settle_comm`), whatever is on record when
they come in. The newest one may then be taken to come in first, and all others are late
after it (`settleAll_of_stale`).
-/

namespace ScriptDesk

/-- The pass was a full one, and gave an analysis. -/
def Completion.IsFullSuccess (d : Completion) : Prop :=
  d.mode = .full ∧ ∃ found, d.outcome = .ok found

namespace Tracking

/-- Takes in completions one after another. -/
def settleAll (t : Tracking) (shown : Bool) (ds : List Completion) : Tracking :=
  t.run (ds.map (.settle · shown))

/-- No pass that one of the completions is of is under way any more. -/
def endAll (t : Tracking) (ds : List Completion) : Tracking :=
  { t with inFlight := t.inFlight.filter fun v => ds.all (v != ·.version) }

/-- Puts a full analysis of that version on record, whatever is there. -/
def record (t : Tracking) (version : Nat) (found : Analysis) (shown : Bool) : Tracking :=
  { t with
    needsAnalysis := t.needsAnalysis && version != t.version
    analysis := some found
    applied := some ⟨version, .full⟩
    viewsStale := !shown
    status := .ofAnalysis found t.enabled t.hasFile }

/-! ## Ended passes and analyses put on record -/

section

variable {t : Tracking} {v w : Nat} {found other : Analysis} {shown : Bool}

@[simp] theorem version_noteEnd : (t.noteEnd v).version = t.version := by
  obtain ⟨inFlight, h⟩ := t.noteEnd_eq v
  rw [h]

@[simp] theorem isStale_noteEnd (stamp : Stamp) :
    (t.noteEnd v).isStale stamp = t.isStale stamp := by
  obtain ⟨inFlight, h⟩ := t.noteEnd_eq v
  rw [h]
  rfl

@[simp] theorem version_record : (t.record v found shown).version = t.version := rfl

theorem noteEnd_eq_filter (t : Tracking) (v : Nat) :
    t.noteEnd v = { t with inFlight := t.inFlight.filter (· != v) } := by
  obtain ⟨_, _, inFlight, _, _, _, _, _, _⟩ := t
  cases inFlight with
  | none => simp [noteEnd]
  | some w => by_cases hw : w = v <;> simp [noteEnd, Option.filter, hw]

/-- It does not matter which of two passes is noted as ended first. -/
theorem noteEnd_comm (t : Tracking) (v w : Nat) :
    (t.noteEnd v).noteEnd w = (t.noteEnd w).noteEnd v := by
  grind [noteEnd]

theorem noteEnd_record :
    (t.record v found shown).noteEnd w = (t.noteEnd w).record v found shown := by
  unfold noteEnd record
  split <;> rfl

/-- A full pass replaces what is on record, and settles the document if it was of the version
that the document has. -/
theorem apply_full_ok : t.apply ⟨v, .full⟩ (.ok found) shown = t.record v found shown := by
  have hsettles : t.isSettledBy .full = true := rfl
  by_cases hv : v = t.version <;>
    simp [apply, record, analysisOf_of_isSettledBy, hsettles, resultOf, hv]

/-- An analysis of an earlier version leaves no trace once a later one is on record. -/
theorem record_record (h : v ≠ t.version) :
    (t.record v found shown).record w other shown = t.record w other shown := by
  have hneeds : (v != t.version) = true := bne_iff_ne.2 h
  simp [record, hneeds]

/-- A full pass is late if an analysis of a later version is on record. -/
theorem isStale_full : t.isStale ⟨v, .full⟩ = t.applied.any (v < ·.version) := by
  simp [isStale, Stamp.isOlder, Mode.covers]

theorem isStale_full_record : (t.record v found shown).isStale ⟨w, .full⟩ = decide (w < v) := by
  simp [isStale_full, record]

/-- What makes a full pass late makes those of earlier versions late. -/
theorem isStale_full_of_lt (hvw : v < w) (h : t.isStale ⟨w, .full⟩ = true) :
    t.isStale ⟨v, .full⟩ = true := by
  simp only [isStale_full, Option.any_eq_true, decide_eq_true_eq] at *
  obtain ⟨a, ha, hlt⟩ := h
  exact ⟨a, ha, Nat.lt_trans hvw hlt⟩

end

/-! ## Two completions change places -/

section

variable {t : Tracking} {d e : Completion} {shown : Bool}

/-- Taking in a full analysis: the document never had its version, or it is late, or it goes
on record. -/
theorem settle_of_ok {found : Analysis} (hfull : d.mode = .full) (hok : d.outcome = .ok found) :
    (t.settle d shown).2 =
      if t.version < d.version then t
      else if t.isStale ⟨d.version, .full⟩ then t.noteEnd d.version
      else (t.noteEnd d.version).record d.version found shown := by
  rcases t.settle_outcomes d shown with ⟨hnew, heq⟩ | ⟨hold, hstale, heq⟩ | ⟨hold, hfresh, heq⟩ <;>
    rw [heq]
  · rw [if_pos hnew]
  · rw [hfull] at hstale
    rw [if_neg (Nat.not_lt.2 hold), if_pos hstale]
  · rw [hfull] at hfresh
    rw [if_neg (Nat.not_lt.2 hold), if_neg (Bool.eq_false_iff.1 hfresh), hfull, hok]
    exact apply_full_ok

/-- Of two full analyses the one of the earlier version may come in first or last. -/
theorem settle_comm_of_lt (hd : d.IsFullSuccess) (he : e.IsFullSuccess)
    (hlt : d.version < e.version) :
    ((t.settle d shown).2.settle e shown).2 = ((t.settle e shown).2.settle d shown).2 := by
  obtain ⟨hdfull, found, hdok⟩ := hd
  obtain ⟨hefull, other, heok⟩ := he
  simp only [settle_of_ok hdfull hdok, settle_of_ok hefull heok]
  by_cases hnew : t.version < e.version
  · grind [version_noteEnd, version_record]
  have hold : ¬ t.version < d.version := by omega
  have hne : d.version ≠ ((t.noteEnd d.version).noteEnd e.version).version := by
    rw [version_noteEnd, version_noteEnd]
    omega
  by_cases hstale : t.isStale ⟨e.version, .full⟩
  · -- Both are late, in either order.
    have hstale' := isStale_full_of_lt hlt hstale
    simp [hnew, hold, hstale, hstale', noteEnd_comm t d.version]
  -- The later version goes on record in either order, and the earlier one is late after it.
  by_cases hstale' : t.isStale ⟨d.version, .full⟩
  · simp [hnew, hold, hstale, hstale', hlt, isStale_full_record, noteEnd_record,
      noteEnd_comm t d.version]
  · simp [hnew, hold, hstale, hstale', hlt, Nat.not_lt.2 (Nat.le_of_lt hlt), isStale_full_record,
      noteEnd_record, record_record hne, noteEnd_comm t e.version]

theorem settle_comm (hd : d.IsFullSuccess) (he : e.IsFullSuccess) (hne : d.version ≠ e.version) :
    ((t.settle d shown).2.settle e shown).2 = ((t.settle e shown).2.settle d shown).2 := by
  rcases Nat.lt_or_gt_of_ne hne with hlt | hgt
  · exact settle_comm_of_lt hd he hlt
  · exact (settle_comm_of_lt he hd hgt).symm

end

/-! ## Any order -/

section

variable {t : Tracking} {shown : Bool} {ds es : List Completion}

theorem settleAll_cons (t : Tracking) (shown : Bool) (d : Completion) (ds : List Completion) :
    t.settleAll shown (d :: ds) = (t.settle d shown).2.settleAll shown ds := rfl

theorem settleAll_perm (hfull : ∀ d ∈ ds, d.IsFullSuccess)
    (hdistinct : ds.Pairwise (·.version ≠ ·.version)) (hperm : ds.Perm es) :
    t.settleAll shown ds = t.settleAll shown es := by
  unfold settleAll run
  rw [List.foldl_map, List.foldl_map]
  have : Std.Symm fun d e : Completion => d.version ≠ e.version := ⟨fun _ _ h => h.symm⟩
  refine hperm.foldl_eq' (fun d hd e he s => ?_) t
  by_cases hde : d = e
  · rw [hde]
  · exact settle_comm (hfull d hd) (hfull e he)
      (hdistinct.forall hd he hde)

theorem endAll_nil (t : Tracking) : t.endAll [] = t := by
  obtain ⟨_, _, inFlight, _, _, _, _, _, _⟩ := t
  cases inFlight <;> rfl

theorem endAll_cons (t : Tracking) (d : Completion) (ds : List Completion) :
    t.endAll (d :: ds) = (t.noteEnd d.version).endAll ds := by
  simp [endAll, noteEnd_eq_filter]

theorem endAll_perm (hperm : ds.Perm es) : t.endAll ds = t.endAll es := by
  simp [endAll, List.all_eq, hperm.mem_iff]

/-- Completions that are late change nothing but which passes are under way. -/
theorem settleAll_of_stale (hold : ∀ d ∈ ds, d.version ≤ t.version)
    (hstale : ∀ d ∈ ds, t.isStale ⟨d.version, d.mode⟩ = true) :
    t.settleAll shown ds = t.endAll ds := by
  induction ds generalizing t with
  | nil => exact t.endAll_nil.symm
  | cons d rest ih =>
    obtain ⟨hdold, hold⟩ := List.forall_mem_cons.1 hold
    obtain ⟨hdstale, hstale⟩ := List.forall_mem_cons.1 hstale
    have heq : (t.settle d shown).2 = t.noteEnd d.version := by
      rcases t.settle_outcomes d shown with ⟨hnew, -⟩ | ⟨-, -, heq⟩ | ⟨-, hfresh, -⟩
      · exact absurd hdold (Nat.not_le.2 hnew)
      · rw [heq]
      · rw [hdstale] at hfresh
        contradiction
    rw [settleAll_cons, heq, endAll_cons]
    exact ih (by simpa using hold) (by simpa using hstale)

/-- Among completions of different versions the newest can be put in front: the others are
of earlier versions. -/
theorem exists_perm_newest {newest : Completion} (hnewest : newest ∈ ds)
    (hle : ∀ d ∈ ds, d.version ≤ newest.version) (hdistinct : ds.Pairwise (·.version ≠ ·.version)) :
    ∃ rest, ds.Perm (newest :: rest) ∧ ∀ d ∈ rest, d ∈ ds ∧ d.version < newest.version := by
  obtain ⟨before, after, rfl⟩ := List.append_of_mem hnewest
  have hperm : (before ++ newest :: after).Perm (newest :: (before ++ after)) := List.perm_middle
  refine ⟨before ++ after, hperm, fun d hd => ?_⟩
  have hmem := hperm.mem_iff.2 (List.mem_cons_of_mem _ hd)
  have hne := List.rel_of_pairwise_cons (hperm.pairwise hdistinct fun h => h.symm) hd
  exact ⟨hmem, Nat.lt_of_le_of_ne (hle d hmem) hne.symm⟩

/-- Full analyses of different versions come in in any order with the same result: the newest
of them stands, unless something newer was on record before. -/
theorem newest_stands (t : Tracking) (shown : Bool) {ds es : List Completion} (hperm : ds.Perm es)
    (hfull : ∀ d ∈ ds, d.IsFullSuccess) (hdistinct : ds.Pairwise (·.version ≠ ·.version))
    (hold : ∀ d ∈ ds, d.version ≤ t.version) :
    t.settleAll shown ds = t.settleAll shown es ∧
      ∀ newest ∈ ds, (∀ d ∈ ds, d.version ≤ newest.version) → ∀ found, newest.outcome = .ok found →
        t.settleAll shown ds =
          if t.applied.any (newest.version < ·.version) then t.endAll ds
          else (t.endAll ds).record newest.version found shown := by
  refine ⟨settleAll_perm hfull hdistinct hperm, fun newest hnewest hle found hok => ?_⟩
  obtain ⟨rest, hrest, hlt⟩ := exists_perm_newest hnewest hle hdistinct
  have hnewestFull := (hfull newest hnewest).1
  have hrestOld : ∀ d ∈ rest, d.version ≤ t.version := fun d hd => hold d (hlt d hd).1
  have hrestFull : ∀ d ∈ rest, d.mode = .full := fun d hd => (hfull d (hlt d hd).1).1
  rw [settleAll_perm hfull hdistinct hrest, endAll_perm hrest, settleAll_cons, endAll_cons,
    settle_of_ok hnewestFull hok, if_neg (Nat.not_lt.2 (hold newest hnewest)), isStale_full]
  split
  · next hnewer =>
    refine settleAll_of_stale (by simpa using hrestOld) fun d hd => ?_
    rw [isStale_noteEnd, hrestFull d hd]
    exact isStale_full_of_lt (hlt d hd).2 (isStale_full.trans hnewer)
  · rw [settleAll_of_stale]
    · rfl
    · simpa using hrestOld
    · intro d hd
      rw [hrestFull d hd, isStale_full_record]
      exact decide_eq_true (hlt d hd).2

end

/-- A document that was edited twice, while a pass on its second version is under way. -/
def editedTwice : Tracking :=
  run { enabled := true, hasFile := true } [.noteEdit, .noteStart .full, .noteEdit]

/-- Full analyses of its second and third version, the later one of them with an error. -/
def bothVersions : List Completion :=
  [⟨0, ⟨1⟩, 1, .full, .ok { parsed := true }⟩,
    ⟨1, ⟨1⟩, 2, .full, .ok { parsed := true, hasError := true }⟩]

theorem newest_stands_of_two :
    bothVersions.Perm bothVersions.reverse ∧ (∀ d ∈ bothVersions, d.IsFullSuccess) ∧
      editedTwice.inFlight = some 1 ∧
      editedTwice.settleAll true bothVersions = editedTwice.settleAll true bothVersions.reverse ∧
      editedTwice.settleAll true bothVersions =
        { version := 2, needsAnalysis := false, enabled := true, hasFile := true,
          analysis := some { parsed := true, hasError := true }, applied := some ⟨2, .full⟩,
          status := .completeWithErrors } := by
  have hperm : bothVersions.Perm bothVersions.reverse := (List.reverse_perm _).symm
  have hfull : ∀ d ∈ bothVersions, d.IsFullSuccess := by
    simp [bothVersions, Completion.IsFullSuccess]
  obtain ⟨horder, hnewest⟩ := newest_stands editedTwice true hperm hfull (by decide) (by decide)
  refine ⟨hperm, hfull, rfl, horder, ?_⟩
  rw [hnewest _ (List.mem_cons_of_mem _ List.mem_cons_self) (by decide) _ rfl]
  rfl

end Tracking

end ScriptDesk
