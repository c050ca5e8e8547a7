import ScriptDesk.Analysis.Analyzer
import ScriptDesk.Proofs.Reading

/-!
# ScriptDesk.Proofs.Builtin

The built-in analyzer never fails: on any text, and with any well-formed prior
analysis, what it finds is well formed. And it does not depend on its own
history: a prior analysis that knows only procedures of the same file changes
nothing, since all of them are found anew in the text or are gone from it.
-/

namespace ScriptDesk

open Script (LineRange Procedure Structure Issue)

/-- The analysis knows only procedures of the file. -/
def Analysis.IsLocal (a : Analysis) (file : Option String) : Prop :=
  ∀ p ∈ a.procedures, p.isIn file = true

/-! ## Well-formed answers -/

section WellFormed

variable {s : Structure} {last : Nat} {file : Option String} {prior : Option Analysis}

/-- Every name on record comes from the text or from the prior analysis. -/
theorem of_mem_namesOf {p : Procedure} (h : p ∈ (namesOf s file prior).procedures) :
    (∃ q ∈ s.procedures, p = { q with file }) ∨ ∃ a, prior = some a ∧ p ∈ a.procedures := by
  rcases List.mem_append.1 h with h | h
  · obtain ⟨q, hq, rfl⟩ := List.mem_map.1 h
    exact .inl ⟨q, hq, rfl⟩
  · have hp := (List.mem_filter.1 h).1
    cases prior with
    | none => contradiction
    | some a => exact .inr ⟨a, rfl, hp⟩

theorem wellFormed_namesOf (file : Option String) (hs : s.Within last)
    (hp : ∀ a, prior = some a → a.WellFormed) : (namesOf s file prior).WellFormed where
  named p hm := by
    rcases of_mem_namesOf hm with ⟨q, hq, rfl⟩ | ⟨a, ha, hm⟩
    · exact (hs.procedures q hq).named
    · exact (hp a ha).named p hm
  bodies p hm range hr := by
    rcases of_mem_namesOf hm with ⟨q, hq, rfl⟩ | ⟨a, ha, hm⟩
    · exact ((hs.procedures q hq).body range hr).2.1
    · exact (hp a ha).bodies p hm range hr
  blocks range hr := (hs.blocks range hr).2.1
  placed := nofun
  flagged := nofun

/-- A diagnostic stands on an issue and is an error, or on a procedure without a
body and is a warning. -/
theorem of_mem_structureDiagnostics {d : Diagnostic} (h : d ∈ structureDiagnostics s file) :
    (∃ i ∈ s.issues, d.line = i.line) ∨
      ∃ p ∈ s.procedures, d.line = p.declaredAt ∧ d.column = 0 ∧ d.severity = .warning := by
  rw [structureDiagnostics, List.mem_mergeSort, List.mem_append] at h
  rcases h with h | h
  · obtain ⟨i, hi, rfl⟩ := List.mem_map.1 h
    exact .inl ⟨i, hi, rfl⟩
  · obtain ⟨p, hp, rfl⟩ := List.mem_map.1 h
    exact .inr ⟨p, (List.mem_filter.1 hp).1, rfl, rfl, rfl⟩

theorem wellFormed_structureAnalyzer (file : Option String) (hs : s.Within last)
    (hp : ∀ a, prior = some a → a.WellFormed) :
    Analysis.WellFormed
      { namesOf s file prior with
        diagnostics := structureDiagnostics s file
        hasError := !s.issues.isEmpty } where
  named := (wellFormed_namesOf file hs hp).named
  bodies := (wellFormed_namesOf file hs hp).bodies
  blocks := (wellFormed_namesOf file hs hp).blocks
  placed d hd hline := by
    rcases of_mem_structureDiagnostics hd with ⟨i, hi, hi'⟩ | ⟨p, -, -, hcolumn, -⟩
    · have hfirst := (hs.issues i hi).1
      omega
    · exact hcolumn
  flagged d hd herror := by
    rcases of_mem_structureDiagnostics hd with ⟨i, hi, -⟩ | ⟨p, -, -, -, hwarning⟩
    · simpa using List.ne_nil_of_mem hi
    · rw [hwarning] at herror
      contradiction

end WellFormed

/-- The built-in analyzer never fails. -/
theorem exists_run_builtinAnalyzer (request : Request)
    (hp : ∀ a, request.prior = some a → a.WellFormed) :
    ∃ a, builtinAnalyzer.run request = .ok a := by
  have hs := Structure.within_ofText request.text.toList
  have hrun : ∀ a : Analysis, builtinAnalyzer request = .found a → a.WellFormed →
      ∃ a, builtinAnalyzer.run request = .ok a := by
    intro a hfound hwf
    refine ⟨a, ?_⟩
    unfold Analyzer.run
    rw [hfound]
    dsimp only
    rw [Analysis.defect?_eq_none_iff.2 hwf]
  cases hm : request.mode with
  | minimal =>
    refine hrun _ ?_ (wellFormed_namesOf request.file hs hp)
    unfold builtinAnalyzer
    rw [hm]
    rfl
  | full =>
    refine hrun _ ?_ (wellFormed_structureAnalyzer request.file hs hp)
    unfold builtinAnalyzer
    rw [hm]
    rfl

/-! ## Independence of the history -/

theorem importedProcedures_of_local {own : List Procedure} {prior : Option Analysis}
    {file : Option String} (h : ∀ a, prior = some a → a.IsLocal file) :
    importedProcedures own prior file = [] := by
  refine List.filter_eq_nil_iff.2 fun p hp => ?_
  cases prior with
  | none => contradiction
  | some a => simp [h a rfl p hp]

/-- In both modes the names are those of the text and of the prior analysis. -/
theorem exists_builtinAnalyzer_eq (request : Request) :
    ∃ diagnostics hasError, builtinAnalyzer request =
      .found { namesOf (.ofText request.text.toList) request.file request.prior with
        diagnostics, hasError } := by
  unfold builtinAnalyzer
  split
  · exact ⟨[], false, rfl⟩
  · exact ⟨_, _, rfl⟩

/-- A prior analysis makes a difference to the names only. -/
theorem builtinAnalyzer_congr {request : Request} {prior : Option Analysis}
    (h : namesOf (.ofText request.text.toList) request.file request.prior =
      namesOf (.ofText request.text.toList) request.file prior) :
    builtinAnalyzer request = builtinAnalyzer { request with prior } := by
  unfold builtinAnalyzer nameAnalyzer structureAnalyzer
  simp only [h]

/-- A prior analysis of the same file alone makes no difference. -/
theorem builtinAnalyzer_of_local {request : Request}
    (h : ∀ a, request.prior = some a → a.IsLocal request.file) :
    builtinAnalyzer request = builtinAnalyzer { request with prior := none } := by
  have hnone : ∀ own, importedProcedures own none request.file = [] :=
    fun _ => importedProcedures_of_local nofun
  refine builtinAnalyzer_congr ?_
  simp only [namesOf, importedProcedures_of_local h, hnone]

theorem run_builtinAnalyzer_of_local {request : Request}
    (h : ∀ a, request.prior = some a → a.IsLocal request.file) :
    builtinAnalyzer.run request = builtinAnalyzer.run { request with prior := none } := by
  unfold Analyzer.run
  rw [builtinAnalyzer_of_local h]

/-- The procedures of a text belong to its file. -/
theorem isIn_of_mem_ownProcedures {s : Structure} {file : Option String} {p : Procedure}
    (h : p ∈ ownProcedures s file) : p.isIn file = true := by
  obtain ⟨q, -, rfl⟩ := List.mem_map.1 h
  cases file <;> simp [Procedure.isIn]

theorem isLocal_namesOf (s : Structure) (file : Option String) :
    (namesOf s file none).IsLocal file := by
  intro p hm
  rcases List.mem_append.1 hm with hown | himported
  · exact isIn_of_mem_ownProcedures hown
  · exact absurd (List.mem_filter.1 himported).1 List.not_mem_nil

/-- An analyzer that a run accepts found just that. -/
theorem Analyzer.found_of_run_eq_ok {analyzer : Analyzer} {request : Request} {a : Analysis}
    (h : analyzer.run request = .ok a) : analyzer request = .found a := by
  unfold Analyzer.run at h
  split at h
  · contradiction
  · contradiction
  · next found hfound =>
    split at h
    · contradiction
    · cases h
      exact hfound

/-- Without a prior analysis only procedures of the file are found. -/
theorem isLocal_of_run_builtinAnalyzer {request : Request} {a : Analysis}
    (hp : request.prior = none) (h : builtinAnalyzer.run request = .ok a) :
    a.IsLocal request.file := by
  have hfound : ∃ found, builtinAnalyzer request = .found found ∧ found.IsLocal request.file := by
    have hlocal := isLocal_namesOf (.ofText request.text.toList) request.file
    unfold builtinAnalyzer
    split
    · exact ⟨_, rfl, hp ▸ hlocal⟩
    · exact ⟨_, rfl, hp ▸ hlocal⟩
  obtain ⟨found, hfound, hlocal⟩ := hfound
  cases hfound.symm.trans (Analyzer.found_of_run_eq_ok h)
  exact hlocal

end ScriptDesk
