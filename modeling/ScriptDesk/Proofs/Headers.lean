import ScriptDesk.Proofs.Builtin

/-!
# ScriptDesk.Proofs.Headers

A text that is edited is analyzed over and over, each time with what was found before as the
prior analysis. Procedures of headers are not in the text: they come from the prior analysis
alone, and each pass hands them on to the next one. They survive exactly until a text names a
procedure of the same name (`headers_survive`), in whatever modes the texts are analyzed.

What carries the induction is what a prior analysis knows of other files (`foreign`): a pass
strikes from it what its text names, and does nothing else to it (`foreign_of_found`).
-/

namespace ScriptDesk

open Script (Procedure Structure)

/-- A text to be analyzed, and how deep to go. -/
structure Draft where
  text : String
  mode : Mode

namespace Draft

/-- What the text says about its own structure. -/
def parts (d : Draft) : Structure := .ofText d.text.toList

/-- The text has a procedure of that name, in any case. -/
def names (d : Draft) (name : String) : Bool := d.parts.procedures.any (·.isNamed name)

/-- What an analyzer is given for the text. -/
def request (d : Draft) (file : Option String) (prior : Option Analysis) : Request :=
  ⟨d.text, file, d.mode, prior⟩

end Draft

/-- Analyzes texts one after another, each with what was found before as the prior analysis. -/
def analyzeEach (file : Option String) : (prior : Option Analysis) → List Draft → Option Analysis
  | prior, [] => prior
  | prior, d :: drafts =>
    match builtinAnalyzer (d.request file prior) with
    | .found a => analyzeEach file (some a) drafts
    | _ => none

/-- The procedures of other files that an analysis knows. -/
def foreign (prior : Option Analysis) (file : Option String) : List Procedure :=
  (prior.getD {}).procedures.filter (!·.isIn file)

variable {file : Option String} {prior : Option Analysis} {d : Draft} {a : Analysis}

/-! ## One pass -/

/-- Of the procedures of other files those come in that the text does not name. -/
theorem importedProcedures_eq (d : Draft) (file : Option String) (prior : Option Analysis) :
    importedProcedures (ownProcedures d.parts file) prior file =
      (foreign prior file).filter (!d.names ·.name) := by
  have hnamed : ∀ name, (ownProcedures d.parts file).all (!·.isNamed name) = !d.names name := by
    intro name
    rw [ownProcedures, List.all_map, Draft.names, List.not_any_eq_all_not]
    rfl
  simp only [importedProcedures, foreign, List.filter_filter, hnamed, Bool.and_comm]

/-- What is found has the procedures of the text first, and then those that come in. -/
theorem exists_found (d : Draft) (file : Option String) (prior : Option Analysis) :
    ∃ a, builtinAnalyzer (d.request file prior) = .found a ∧
      a.procedures =
        ownProcedures d.parts file ++ (foreign prior file).filter (!d.names ·.name) := by
  obtain ⟨diagnostics, hasError, hfound⟩ := exists_builtinAnalyzer_eq (d.request file prior)
  refine ⟨_, hfound, ?_⟩
  rw [← importedProcedures_eq]
  rfl

theorem procedures_of_found (h : builtinAnalyzer (d.request file prior) = .found a) :
    a.procedures =
      ownProcedures d.parts file ++ (foreign prior file).filter (!d.names ·.name) := by
  obtain ⟨b, hb, hprocedures⟩ := exists_found d file prior
  obtain rfl := Answer.found.inj (hb.symm.trans h)
  exact hprocedures

/-- A pass strikes what its text names from what is known of other files. -/
theorem foreign_of_found (h : builtinAnalyzer (d.request file prior) = .found a) :
    foreign (some a) file = (foreign prior file).filter (!d.names ·.name) := by
  have hown : (ownProcedures d.parts file).filter (!·.isIn file) = [] := by
    refine List.filter_eq_nil_iff.2 fun p hp => ?_
    simp [isIn_of_mem_ownProcedures hp]
  have hforeign : ∀ p ∈ (foreign prior file).filter (!d.names ·.name), (!p.isIn file) = true :=
    fun p hp => (List.mem_filter.1 (List.mem_filter.1 hp).1).2
  calc foreign (some a) file
    _ = a.procedures.filter (!·.isIn file) := rfl
    _ = (foreign prior file).filter (!d.names ·.name) := by
      rw [procedures_of_found h, List.filter_append, hown, List.nil_append,
        List.filter_eq_self.2 hforeign]

/-- Once a text was analyzed it strikes nothing more. -/
theorem filter_foreign_of_found {mode : Mode}
    (h : builtinAnalyzer (d.request file prior) = .found a) :
    (foreign (some a) file).filter (!Draft.names ⟨d.text, mode⟩ ·.name) =
      (foreign prior file).filter (!d.names ·.name) := by
  have hnames : ∀ name, Draft.names ⟨d.text, mode⟩ name = d.names name := fun _ => rfl
  simp [foreign_of_found h, hnames]

/-- What was found is found again, with itself as the prior analysis. -/
theorem builtinAnalyzer_of_found (h : builtinAnalyzer (d.request file prior) = .found a) :
    builtinAnalyzer (d.request file (some a)) = .found a := by
  have himported : importedProcedures (ownProcedures d.parts file) (some a) file =
      importedProcedures (ownProcedures d.parts file) prior file := by
    rw [importedProcedures_eq, importedProcedures_eq]
    exact filter_foreign_of_found h
  have hnames : namesOf d.parts file (some a) = namesOf d.parts file prior := by
    simp only [namesOf, himported]
  calc builtinAnalyzer (d.request file (some a))
    _ = builtinAnalyzer (d.request file prior) := builtinAnalyzer_congr hnames
    _ = .found a := h

/-! ## One text after another -/

/-- Before the last text is analyzed, those procedures of other files are left that no text in
front of it names. -/
theorem exists_analyzeEach (file : Option String) (prior : Option Analysis) (drafts : List Draft)
    (d : Draft) :
    ∃ a before, analyzeEach file prior (drafts ++ [d]) = some a ∧
      builtinAnalyzer (d.request file before) = .found a ∧
        foreign before file =
          (foreign prior file).filter fun p => drafts.all (!·.names p.name) := by
  induction drafts generalizing prior with
  | nil =>
    obtain ⟨a, ha, -⟩ := exists_found d file prior
    exact ⟨a, prior, by simp [analyzeEach, ha], ha, (List.filter_eq_self.2 fun _ _ => rfl).symm⟩
  | cons d' drafts ih =>
    obtain ⟨a', ha', -⟩ := exists_found d' file prior
    obtain ⟨a, before, hrest, ha, hbefore⟩ := ih (some a')
    refine ⟨a, before, by simp [analyzeEach, ha', hrest], ha, ?_⟩
    rw [hbefore, foreign_of_found ha', List.filter_filter]
    simp [Bool.and_comm]

/-- Procedures of other files survive exactly until a text names them. Whatever texts were
analyzed one after another, what the last one says on its own is followed by those procedures of
the first prior analysis, in its order, that are of another file and that no text names. To
analyze the last text again changes nothing, and in the other mode it changes no procedure. -/
theorem headers_survive (file : Option String) (prior : Option Analysis) (drafts : List Draft)
    (d : Draft) :
    ∃ a, analyzeEach file prior (drafts ++ [d]) = some a ∧
      (∃ alone, builtinAnalyzer (d.request file none) = .found alone ∧
        a.procedures = alone.procedures ++ (prior.getD {}).procedures.filter
          fun p => !p.isIn file && (drafts ++ [d]).all (!·.names p.name)) ∧
      builtinAnalyzer (d.request file (some a)) = .found a ∧
      ∀ mode, ∃ b, builtinAnalyzer (Draft.request ⟨d.text, mode⟩ file (some a)) = .found b ∧
        b.procedures = a.procedures := by
  obtain ⟨a, before, heach, ha, hbefore⟩ := exists_analyzeEach file prior drafts d
  obtain ⟨alone, halone, hown⟩ := exists_found d file none
  refine ⟨a, heach, ⟨alone, halone, ?_⟩, builtinAnalyzer_of_found ha, fun mode => ?_⟩
  · have hnone : foreign none file = [] := rfl
    rw [hnone, List.filter_nil, List.append_nil] at hown
    rw [procedures_of_found ha, hown, hbefore, foreign, List.filter_filter, List.filter_filter]
    simp [Bool.and_comm, Bool.and_left_comm]
  · obtain ⟨b, hb, hagain⟩ := exists_found ⟨d.text, mode⟩ file (some a)
    refine ⟨b, hb, ?_⟩
    rw [hagain, filter_foreign_of_found ha, procedures_of_found ha]
    rfl

-- A text names `helper`, so it does not come back with the next text, which is empty.
example :
    (analyzeEach (some "a.ssl")
        (some { procedures := [⟨"helper", 3, none, some "b.h"⟩, ⟨"util", 5, none, some "b.h"⟩] })
        [⟨"procedure HELPER;", .full⟩, ⟨"", .minimal⟩]).map (·.procedures) =
      some [⟨"util", 5, none, some "b.h"⟩] := by
  decide +kernel

end ScriptDesk
