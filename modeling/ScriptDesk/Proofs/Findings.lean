import ScriptDesk.Analysis.Fold
import ScriptDesk.Proofs.Builtin
import ScriptDesk.Proofs.Grammar
import ScriptDesk.Proofs.Layout

/-!
# ScriptDesk.Proofs.Findings

What the built-in analyzer finds in a text, and how it fits together (`SoundFor`). A
well-formed analysis can still be nonsense: its lines can lie behind the end of the text, its
bodies can overlap. None of this happens to an analysis that the built-in analyzer makes,
in either mode and whatever the text.
-/

namespace ScriptDesk

open Script (LineRange Procedure Macro Structure)

/-! ## Macros -/

namespace Script

variable {line : Nat} {ls : List (Bool × List Char)}

theorem line_of_mem_macrosFrom {m : Macro} (h : m ∈ macrosFrom line ls) :
    line ≤ m.line ∧ m.line < line + ls.length := by
  fun_induction macrosFrom line ls with
  | case1 => contradiction
  | case2 line text rest name _ ih =>
    rw [List.length_cons]
    rcases List.mem_cons.1 h with rfl | h
    · dsimp only
      omega
    · have := ih h
      omega
  | case3 line directive text rest _ ih =>
    have := ih h
    rw [List.length_cons]
    omega

/-- Each macro is defined on a line of its own. -/
theorem pairwise_macrosFrom (line : Nat) (ls : List (Bool × List Char)) :
    (macrosFrom line ls).Pairwise (·.line < ·.line) := by
  fun_induction macrosFrom line ls with
  | case1 => exact .nil
  | case2 line text rest name _ ih =>
    exact .cons (fun m hm => (line_of_mem_macrosFrom hm).1) ih
  | case3 line directive text rest _ ih => exact ih

theorem Structure.line_of_mem_macros {text : List Char} {m : Macro}
    (h : m ∈ (ofText text).macros) : 1 ≤ m.line ∧ m.line ≤ (cleanLines text).length := by
  have hline : 1 ≤ m.line ∧ m.line < 1 + (markedLines text).length := line_of_mem_macrosFrom h
  rw [markedLines, length_markDirectives] at hline
  omega

/-! ## The structure of a text -/

/-- What a text of that many lines says about its own structure fits together. -/
structure Structure.Laid (s : Structure) (last : Nat) : Prop where
  within : s.Within last
  declared : ∀ p ∈ s.procedures, ∀ range, p.body = some range → p.declaredAt ≤ range.first
  distinct : Procedure.Distinct s.procedures
  apart : (s.procedures.filterMap (·.body) ++ s.blocks).Pairwise LineRange.Apart
  macros : ∀ m ∈ s.macros, 1 ≤ m.line ∧ m.line ≤ last
  increasing : s.macros.Pairwise (·.line < ·.line)

theorem Structure.laid_ofText (text : List Char) :
    (ofText text).Laid (Text.lines text).length := by
  rw [← length_cleanLines]
  exact
    { within := within_ofText text
      declared := fun p hp range hrange => declaredAt_le text hp hrange
      distinct := distinct_procedures text
      apart := pairwise_apart text
      macros := fun m hm => line_of_mem_macros hm
      increasing := pairwise_macrosFrom 1 _ }

end Script

/-! ## Procedures -/

section Procedures

variable {s : Structure} {file : Option String} {prior : Option Analysis}

/-- The procedures of the file are those found in the text. -/
theorem proceduresIn_namesOf (s : Structure) (file : Option String) (prior : Option Analysis) :
    (namesOf s file prior).proceduresIn file = ownProcedures s file := by
  have himported : ∀ p ∈ importedProcedures (ownProcedures s file) prior file,
      ¬ p.isIn file = true := by
    intro p hp
    have := (List.mem_filter.1 hp).2
    simp only [Bool.and_eq_true, Bool.not_eq_true'] at this
    simp [this.1]
  rw [Analysis.proceduresIn, namesOf, List.filter_append,
    List.filter_eq_self.2 fun _ => isIn_of_mem_ownProcedures,
    List.filter_eq_nil_iff.2 himported, List.append_nil]

theorem filterMap_body_ownProcedures (s : Structure) (file : Option String) :
    (ownProcedures s file).filterMap (·.body) = s.procedures.filterMap (·.body) :=
  List.filterMap_map

/-- Names that come from a prior analysis stay different from each other and from those found in
the text. -/
theorem distinct_namesOf (hs : Procedure.Distinct s.procedures)
    (hp : ∀ a, prior = some a → Procedure.Distinct a.procedures) :
    Procedure.Distinct (namesOf s file prior).procedures := by
  have hprior : Procedure.Distinct (prior.getD {}).procedures := by
    cases prior with
    | none => exact .nil
    | some a => exact hp a rfl
  refine List.pairwise_append.2 ⟨List.pairwise_map.2 hs, hprior.filter _, fun p hp q hq => ?_⟩
  have hnew := (Bool.and_eq_true_iff.1 (List.mem_filter.1 hq).2).2
  simpa using List.all_eq_true.1 hnew p hp

end Procedures

/-! ## Findings -/

/-- The analysis fits the text of the request and fits together. -/
structure Analysis.SoundFor (a : Analysis) (request : Request) : Prop where
  wellFormed : a.WellFormed
  /-- The procedures of the file are those found in the text. -/
  own : a.proceduresIn request.file =
    ownProcedures (.ofText request.text.toList) request.file
  /-- The error flag is set for errors only. -/
  flagged : a.hasError = true ↔ ∃ d ∈ a.diagnostics, d.severity = .error
  sorted : a.diagnostics.Pairwise fun d d' =>
    d.line < d'.line ∨ d.line = d'.line ∧ d.column ≤ d'.column
  diagnostics : ∀ d ∈ a.diagnostics,
    1 ≤ d.line ∧ d.line ≤ (Text.lines request.text.toList).length
  declared : ∀ p ∈ a.proceduresIn request.file,
    1 ≤ p.declaredAt ∧ p.declaredAt ≤ (Text.lines request.text.toList).length
  /-- A body starts where its procedure is declared or behind it. -/
  bodies : ∀ p ∈ a.proceduresIn request.file, ∀ range, p.body = some range →
    p.declaredAt ≤ range.first ∧ range.Within (Text.lines request.text.toList).length
  blocks : ∀ range ∈ a.blocks, range.Within (Text.lines request.text.toList).length
  macros : ∀ m ∈ a.macros, 1 ≤ m.line ∧ m.line ≤ (Text.lines request.text.toList).length
  increasing : a.macros.Pairwise (·.line < ·.line)
  /-- Of the bodies and blocks any two share one line at most. -/
  apart : ((a.proceduresIn request.file).filterMap (·.body) ++ a.blocks).Pairwise LineRange.Apart
  distinct : (∀ prior, request.prior = some prior → Procedure.Distinct prior.procedures) →
    Procedure.Distinct a.procedures

/-- The names found in a text fit it, with diagnostics that do. -/
theorem soundFor_namesOf {request : Request} {s : Structure} {diagnostics : List Diagnostic}
    {hasError : Bool} (htext : .ofText request.text.toList = s)
    (hs : s.Laid (Text.lines request.text.toList).length)
    (hwf : Analysis.WellFormed
      { namesOf s request.file request.prior with diagnostics, hasError })
    (hflagged : hasError = true ↔ ∃ d ∈ diagnostics, d.severity = .error)
    (hsorted : diagnostics.Pairwise fun d d' => d.listedBefore d' = true)
    (hlines : ∀ d ∈ diagnostics,
      1 ≤ d.line ∧ d.line ≤ (Text.lines request.text.toList).length) :
    Analysis.SoundFor
      { namesOf s request.file request.prior with diagnostics, hasError } request := by
  have hin := proceduresIn_namesOf s request.file request.prior
  constructor
  case wellFormed => exact hwf
  case own =>
    rw [htext]
    exact hin
  case flagged => exact hflagged
  case sorted => exact hsorted.imp fun h => by simpa [Diagnostic.listedBefore] using h
  case diagnostics => exact hlines
  case declared =>
    intro p hp
    obtain ⟨q, hq, rfl⟩ := List.mem_map.1 (hin ▸ hp)
    exact (hs.within.procedures q hq).declared
  case bodies =>
    intro p hp range hrange
    obtain ⟨q, hq, rfl⟩ := List.mem_map.1 (hin ▸ hp)
    exact ⟨hs.declared q hq range hrange, (hs.within.procedures q hq).body range hrange⟩
  case blocks => exact hs.within.blocks
  case macros => exact hs.macros
  case increasing => exact hs.increasing
  case apart =>
    have hapart := hs.apart
    rw [← filterMap_body_ownProcedures s request.file, ← hin] at hapart
    exact hapart
  case distinct => exact distinct_namesOf hs.distinct

/-- The built-in analyzer answers every request, and its answer fits the text and fits
together. -/
theorem builtinAnalyzer_sound (request : Request)
    (hp : ∀ prior, request.prior = some prior → prior.WellFormed) :
    ∃ a, builtinAnalyzer.run request = .ok a ∧ a.SoundFor request := by
  obtain ⟨a, ha⟩ := exists_run_builtinAnalyzer request hp
  have hwf := Analyzer.wellFormed_of_run_eq_ok ha
  have hfound := Analyzer.found_of_run_eq_ok ha
  refine ⟨a, ha, ?_⟩
  have hs := Structure.laid_ofText request.text.toList
  unfold builtinAnalyzer nameAnalyzer structureAnalyzer at hfound
  generalize htext : Structure.ofText request.text.toList = s at hs hfound
  split at hfound
  · obtain rfl := Answer.found.inj hfound
    exact soundFor_namesOf htext hs hwf (by simp) .nil nofun
  · obtain rfl := Answer.found.inj hfound
    refine soundFor_namesOf htext hs hwf ?_ ?_ ?_
    · have herrors := Script.forall_severity_ne_error_iff s request.file
      rw [Bool.not_eq_true', List.isEmpty_eq_false_iff, ne_eq, ← herrors]
      simp
    · exact List.pairwise_mergeSort Diagnostic.listedBefore_trans Diagnostic.listedBefore_total _
    · intro d hd
      rcases of_mem_structureDiagnostics hd with ⟨i, hi, hline⟩ | ⟨p, hp, hline, -⟩
      · exact hline ▸ hs.within.issues i hi
      · exact hline ▸ (hs.within.procedures p hp).declared

/-- A full pass over a text that closes more than it opens, with a procedure of a header on
record. -/
def strayEnd : Request :=
  { text := "procedure start begin\nend\nend"
    file := some "door.ssl"
    mode := .full
    prior := some { procedures := [⟨"helper", 3, none, some "tools.h"⟩], parsed := true } }

theorem builtinAnalyzer_sound_strayEnd :
    (∀ prior, strayEnd.prior = some prior → prior.WellFormed) ∧
      ∃ a, builtinAnalyzer.run strayEnd = .ok a ∧ a.SoundFor strayEnd := by
  have hprior : ∀ prior, strayEnd.prior = some prior → prior.WellFormed := by
    intro prior h
    cases h
    exact Analysis.defect?_eq_none_iff.1 (by decide)
  exact ⟨hprior, builtinAnalyzer_sound strayEnd hprior⟩

end ScriptDesk
