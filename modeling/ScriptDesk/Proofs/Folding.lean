import ScriptDesk.Proofs.Findings

/-!
# ScriptDesk.Proofs.Folding

Folds never cross (`folds_nest`). The folds of bodies and blocks come one after the other, and
share a line only where one ends and the next one starts: bodies and blocks lie apart
(`Structure.pairwise_apart`), so sorting them by first lines is enough (`pairwise_mergeSort`).

The region of forward declarations is made of lines, not of ranges of the text. It ends in front
of all bodies by definition, but a block can lie between two declarations. What keeps it from
crossing the region is that no `procedure` stands inside of a block
(`Structure.clears_declaredAt`).
-/

namespace ScriptDesk

open Script (LineRange Procedure Structure)

namespace Analysis

variable {a : Analysis} {file : Option String} {ps : List Procedure} {f : Fold} {line : Nat}

/-! ## Bodies and blocks -/

/-- The folds of the bodies and the blocks of a file. -/
def partFolds (a : Analysis) (file : Option String) : List Fold :=
  (a.proceduresIn file).filterMap bodyFold? ++ a.blockFolds

/-- The fold of the declaration region, if there is one. -/
def regionFold? (ps : List Procedure) : Option Fold :=
  (declarationRegion? ps).map fun range => ⟨range, "DECLARATIONS", .declarations⟩

theorem folds_eq (a : Analysis) (file : Option String) :
    a.folds file = (regionFold? (a.proceduresIn file)).toList ++
      (a.partFolds file).mergeSort (·.range.first ≤ ·.range.first) := rfl

theorem bodyFold?_eq_some_iff {p : Procedure} :
    bodyFold? p = some f ↔ ∃ range, p.body = some range ∧ range.first < range.last ∧
      ⟨range, Text.upperCase p.name, .procedure⟩ = f := by
  simp only [bodyFold?, Option.map_eq_some_iff, Option.filter_eq_some_iff, LineRange.isMultiline,
    decide_eq_true_eq, and_assoc]

theorem mem_blockFolds : f ∈ a.blockFolds ↔
    ∃ range ∈ a.blocks, range.first < range.last ∧ ⟨range, "VARIABLES", .variables⟩ = f := by
  simp only [blockFolds, List.mem_map, List.mem_filter, LineRange.isMultiline, decide_eq_true_eq,
    and_assoc]

/-- The ranges of the folds are the bodies and the blocks of more than one line. -/
theorem map_range_partFolds (a : Analysis) (file : Option String) :
    (a.partFolds file).map (·.range) =
      ((a.proceduresIn file).filterMap (·.body) ++ a.blocks).filter (·.isMultiline) := by
  have hbodies : ∀ ps : List Procedure, (ps.filterMap bodyFold?).map (·.range) =
      (ps.filterMap (·.body)).filter (·.isMultiline) := by
    intro ps
    rw [List.map_filterMap, List.filter_filterMap]
    refine congrArg (List.filterMap · ps) (funext fun p => ?_)
    simp [bodyFold?, Function.comp_def]
  rw [partFolds, List.map_append, hbodies, List.filter_append, blockFolds, List.map_map]
  congr 1
  exact List.map_id _

/-- Folds that lie apart come one after the other once they are sorted by first lines. -/
theorem pairwise_mergeSort {fs : List Fold} (hlines : ∀ f ∈ fs, f.range.first < f.range.last)
    (happart : (fs.map (·.range)).Pairwise LineRange.Apart) :
    (fs.mergeSort (·.range.first ≤ ·.range.first)).Pairwise fun f g =>
      f.range.first < g.range.first ∧ f.range.last ≤ g.range.first := by
  have hsorted : (fs.mergeSort (·.range.first ≤ ·.range.first)).Pairwise fun f g =>
      f.range.first ≤ g.range.first := by
    have htrans : ∀ f g h : Fold, decide (f.range.first ≤ g.range.first) = true →
        decide (g.range.first ≤ h.range.first) = true →
          decide (f.range.first ≤ h.range.first) = true := by
      simp only [decide_eq_true_eq]
      omega
    have htotal : ∀ f g : Fold, (decide (f.range.first ≤ g.range.first) ||
        decide (g.range.first ≤ f.range.first)) = true := by
      simp only [Bool.or_eq_true, decide_eq_true_eq]
      omega
    exact (List.pairwise_mergeSort htrans htotal fs).imp fun h => by simpa using h
  have happart' : (fs.mergeSort (·.range.first ≤ ·.range.first)).Pairwise fun f g =>
      f.range.Apart g.range :=
    (List.mergeSort_perm fs _).symm.pairwise (List.pairwise_map.1 happart) LineRange.Apart.symm
  refine (hsorted.and happart').imp_of_mem fun {f g} hf hg h => ?_
  have hf := hlines f (List.mem_mergeSort.1 hf)
  have hg := hlines g (List.mem_mergeSort.1 hg)
  obtain ⟨hle, hprecedes | hprecedes⟩ := h <;>
    simp only [LineRange.Precedes] at hprecedes <;> omega

/-! ## The declaration region -/

/-- A forward declaration stands on the line, above all bodies. The highest number that a line can
have takes the place of a body if there is none. -/
structure Leads (ps : List Procedure) (line : Nat) : Prop where
  declared : ∃ p ∈ ps, p.declaredAt = line ∧ ∀ range, p.body = some range → range.first ≠ line
  above : ∀ p ∈ ps, ∀ range, p.body = some range → line < range.first
  counted : (∀ p ∈ ps, p.body = none) → line < lastLineNumber

theorem lt_firstBodyLine_iff : line < firstBodyLine ps ↔
    (∀ p ∈ ps, ∀ range, p.body = some range → line < range.first) ∧
      ((∀ p ∈ ps, p.body = none) → line < lastLineNumber) := by
  have hmem : ∀ first, first ∈ (ps.filterMap (·.body)).map (·.first) ↔
      ∃ p ∈ ps, ∃ range, p.body = some range ∧ range.first = first := by
    intro first
    simp only [List.mem_map, List.mem_filterMap]
    constructor
    · rintro ⟨range, ⟨p, hp, hbody⟩, rfl⟩
      exact ⟨p, hp, range, hbody, rfl⟩
    · rintro ⟨p, hp, range, hbody, rfl⟩
      exact ⟨range, ⟨p, hp, hbody⟩, rfl⟩
  unfold firstBodyLine
  cases hmin : ((ps.filterMap (·.body)).map (·.first)).min? with
  | none =>
    have hnone : ∀ p ∈ ps, p.body = none := by
      simpa [List.min?_eq_none_iff, List.filterMap_eq_nil_iff] using hmin
    simp +contextual [hnone]
  | some first =>
    obtain ⟨hfirst, hle⟩ := List.min?_eq_some_iff.1 hmin
    obtain ⟨p, hp, range, hbody, hrange⟩ := (hmem first).1 hfirst
    constructor
    · intro hlt
      refine ⟨fun q hq body hbody => ?_, fun hnone => ?_⟩
      · exact Nat.lt_of_lt_of_le hlt (hle _ ((hmem _).2 ⟨q, hq, body, hbody, rfl⟩))
      · rw [hnone p hp] at hbody
        contradiction
    · rintro ⟨habove, -⟩
      exact hrange ▸ habove p hp range hbody

theorem mem_forwardLines : line ∈ forwardLines ps ↔ Leads ps line := by
  have hforward : ∀ p : Procedure, isForward p = true ↔
      ∀ range, p.body = some range → range.first ≠ p.declaredAt := by
    intro p
    cases hbody : p.body <;> simp [isForward, hbody]
  simp only [forwardLines, List.mem_filter, List.mem_map, decide_eq_true_eq, lt_firstBodyLine_iff,
    hforward]
  constructor
  · rintro ⟨⟨p, ⟨hp, hbody⟩, rfl⟩, habove, hcounted⟩
    exact ⟨⟨p, hp, rfl, hbody⟩, habove, hcounted⟩
  · rintro ⟨⟨p, hp, rfl, hbody⟩, habove, hcounted⟩
    exact ⟨⟨p, ⟨hp, hbody⟩, rfl⟩, habove, hcounted⟩

theorem declarationRegion?_eq_some_iff {range : LineRange} :
    declarationRegion? ps = some range ↔ range.first < range.last ∧
      Leads ps range.first ∧ Leads ps range.last ∧
        ∀ line, Leads ps line → range.first ≤ line ∧ line ≤ range.last := by
  simp only [← mem_forwardLines]
  unfold declarationRegion?
  constructor
  · intro h
    split at h
    · next first last hfirst hlast =>
      obtain ⟨hfirst, hle⟩ := List.min?_eq_some_iff.1 hfirst
      obtain ⟨hlast, hge⟩ := List.max?_eq_some_iff.1 hlast
      split at h
      · next hlt =>
        obtain rfl := Option.some.inj h
        exact ⟨hlt, hfirst, hlast, fun line hline => ⟨hle line hline, hge line hline⟩⟩
      · contradiction
    · contradiction
  · rintro ⟨hlt, hfirst, hlast, hall⟩
    rw [List.min?_eq_some_iff.2 ⟨hfirst, fun line hline => (hall line hline).1⟩,
      List.max?_eq_some_iff.2 ⟨hlast, fun line hline => (hall line hline).2⟩]
    dsimp only
    rw [if_pos hlt]

/-- There is a region if and only if forward declarations stand on two lines above all bodies. -/
theorem exists_declarationRegion?_iff :
    (∃ range, declarationRegion? ps = some range) ↔
      ∃ line line', Leads ps line ∧ Leads ps line' ∧ line ≠ line' := by
  constructor
  · rintro ⟨range, hrange⟩
    obtain ⟨hlt, hfirst, hlast, -⟩ := declarationRegion?_eq_some_iff.1 hrange
    exact ⟨range.first, range.last, hfirst, hlast, Nat.ne_of_lt hlt⟩
  · rintro ⟨line, line', hline, hline', hne⟩
    rw [← mem_forwardLines] at hline hline'
    obtain ⟨first, hfirst⟩ := Option.isSome_iff_exists.1
      (List.isSome_min?_iff.2 (List.ne_nil_of_mem hline))
    obtain ⟨last, hlast⟩ := Option.isSome_iff_exists.1
      (List.isSome_max?_iff.2 (List.ne_nil_of_mem hline))
    have hle := (List.min?_eq_some_iff.1 hfirst).2
    have hge := (List.max?_eq_some_iff.1 hlast).2
    have hlt : first < last := by
      have := hle line hline
      have := hle line' hline'
      have := hge line hline
      have := hge line' hline'
      omega
    refine ⟨⟨first, last⟩, ?_⟩
    unfold declarationRegion?
    rw [hfirst, hlast]
    dsimp only
    rw [if_pos hlt]

/-! ## All folds -/

/-- How the folds of a text of that many lines stand to each other. -/
structure FoldsNest (a : Analysis) (file : Option String) (lastLine : Nat) : Prop where
  multiline : ∀ f ∈ a.folds file,
    1 ≤ f.range.first ∧ f.range.first < f.range.last ∧ f.range.last ≤ lastLine
  /-- Bodies and blocks come one after the other. -/
  inOrder : ((a.folds file).filter (·.kind ≠ .declarations)).Pairwise fun f g =>
    f.range.first < g.range.first ∧ f.range.last ≤ g.range.first
  /-- There is a declaration region if and only if forward declarations stand on two lines above
  all bodies. -/
  region_iff : (∃ f ∈ a.folds file, f.kind = .declarations) ↔
    ∃ line line', Leads (a.proceduresIn file) line ∧ Leads (a.proceduresIn file) line' ∧
      line ≠ line'
  /-- It comes first, and is the only one. -/
  first : ∀ f ∈ (a.folds file).tail, f.kind ≠ .declarations
  /-- It goes from the first to the last of those lines. -/
  spans : ∀ f ∈ a.folds file, f.kind = .declarations →
    Leads (a.proceduresIn file) f.range.first ∧ Leads (a.proceduresIn file) f.range.last ∧
      ∀ line, Leads (a.proceduresIn file) line → f.range.first ≤ line ∧ line ≤ f.range.last
  above : ∀ f ∈ a.folds file, f.kind = .declarations →
    ∀ g ∈ a.folds file, g.kind = .procedure → f.range.last < g.range.first
  /-- A block lies inside of it or shares one line with it at most. -/
  around : ∀ f ∈ a.folds file, f.kind = .declarations →
    ∀ g ∈ a.folds file, g.kind = .variables →
      (f.range.first ≤ g.range.first ∧ g.range.last ≤ f.range.last) ∨ g.range.Apart f.range

/-- What is left to say of a fold once it is known where it comes from. -/
theorem mem_folds : f ∈ a.folds file ↔
    (∃ range, declarationRegion? (a.proceduresIn file) = some range ∧
      ⟨range, "DECLARATIONS", .declarations⟩ = f) ∨ f ∈ a.partFolds file := by
  simp [folds_eq, regionFold?]

theorem of_mem_partFolds (h : f ∈ a.partFolds file) : f.range.first < f.range.last ∧
    ((f.kind = .procedure ∧ ∃ p ∈ a.proceduresIn file, p.body = some f.range) ∨
      (f.kind = .variables ∧ f.range ∈ a.blocks)) := by
  rcases List.mem_append.1 h with hbody | hblock
  · obtain ⟨p, hp, hfold⟩ := List.mem_filterMap.1 hbody
    obtain ⟨range, hrange, hlt, rfl⟩ := bodyFold?_eq_some_iff.1 hfold
    exact ⟨hlt, .inl ⟨rfl, p, hp, hrange⟩⟩
  · obtain ⟨range, hrange, hlt, rfl⟩ := mem_blockFolds.1 hblock
    exact ⟨hlt, .inr ⟨rfl, hrange⟩⟩

theorem kind_of_mem_partFolds (h : f ∈ a.partFolds file) : f.kind ≠ .declarations := by
  obtain ⟨-, ⟨hkind, -⟩ | ⟨hkind, -⟩⟩ := of_mem_partFolds h <;> simp [hkind]

/-- Only the region stands for declarations. -/
theorem of_kind_eq_declarations (h : f ∈ a.folds file) (hkind : f.kind = .declarations) :
    declarationRegion? (a.proceduresIn file) = some f.range := by
  rcases mem_folds.1 h with ⟨range, hrange, rfl⟩ | hpart
  · exact hrange
  · exact absurd hkind (kind_of_mem_partFolds hpart)

theorem mem_partFolds_of_kind (h : f ∈ a.folds file) (hkind : f.kind ≠ .declarations) :
    f ∈ a.partFolds file := by
  rcases mem_folds.1 h with ⟨range, -, rfl⟩ | hpart
  · exact absurd rfl hkind
  · exact hpart

/-- Without the region, the folds are those of the bodies and the blocks by their first lines. -/
theorem filter_folds (a : Analysis) (file : Option String) :
    (a.folds file).filter (·.kind ≠ .declarations) =
      (a.partFolds file).mergeSort (·.range.first ≤ ·.range.first) := by
  have hparts : ∀ f ∈ (a.partFolds file).mergeSort (·.range.first ≤ ·.range.first),
      decide (f.kind ≠ .declarations) = true := fun f hf =>
    decide_eq_true (kind_of_mem_partFolds (List.mem_mergeSort.1 hf))
  have hregion :
      (regionFold? (a.proceduresIn file)).toList.filter (·.kind ≠ .declarations) = [] := by
    cases hr : declarationRegion? (a.proceduresIn file) <;> simp [regionFold?, hr]
  rw [folds_eq, List.filter_append, hregion, List.nil_append, List.filter_eq_self.2 hparts]

/-- Folds nest in an analysis whose parts fit together. -/
theorem foldsNest_of_parts {lastLine : Nat}
    (hdeclared : ∀ p ∈ a.proceduresIn file, 1 ≤ p.declaredAt ∧ p.declaredAt ≤ lastLine)
    (hbodies : ∀ p ∈ a.proceduresIn file, ∀ range, p.body = some range → range.Within lastLine)
    (hblocks : ∀ range ∈ a.blocks, range.Within lastLine)
    (happart : ((a.proceduresIn file).filterMap (·.body) ++ a.blocks).Pairwise LineRange.Apart)
    (hclear : ∀ p ∈ a.proceduresIn file, ∀ range ∈ a.blocks, range.Clears p.declaredAt) :
    a.FoldsNest file lastLine where
  multiline f hf := by
    rcases mem_folds.1 hf with ⟨range, hrange, rfl⟩ | hpart
    · obtain ⟨hlt, hfirst, hlast, -⟩ := declarationRegion?_eq_some_iff.1 hrange
      obtain ⟨p, hp, hline, -⟩ := hfirst.declared
      obtain ⟨q, hq, hline', -⟩ := hlast.declared
      exact ⟨hline ▸ (hdeclared p hp).1, hlt, hline' ▸ (hdeclared q hq).2⟩
    · obtain ⟨hlt, ⟨-, p, hp, hbody⟩ | ⟨-, hblock⟩⟩ := of_mem_partFolds hpart
      · have hwithin := hbodies p hp _ hbody
        exact ⟨hwithin.1, hlt, hwithin.2.2⟩
      · have hwithin := hblocks _ hblock
        exact ⟨hwithin.1, hlt, hwithin.2.2⟩
  inOrder := by
    rw [filter_folds]
    refine pairwise_mergeSort (fun f hf => (of_mem_partFolds hf).1) ?_
    rw [map_range_partFolds]
    exact happart.filter _
  region_iff := by
    rw [← exists_declarationRegion?_iff]
    constructor
    · rintro ⟨f, hf, hkind⟩
      exact ⟨f.range, of_kind_eq_declarations hf hkind⟩
    · rintro ⟨range, hrange⟩
      exact ⟨⟨range, "DECLARATIONS", .declarations⟩, mem_folds.2 (.inl ⟨range, hrange, rfl⟩), rfl⟩
  first f hf := by
    have hpart : f ∈ a.partFolds file := by
      rw [folds_eq] at hf
      cases hregion : regionFold? (a.proceduresIn file) with
      | none =>
        rw [hregion] at hf
        exact List.mem_mergeSort.1 (List.mem_of_mem_tail hf)
      | some region =>
        rw [hregion] at hf
        exact List.mem_mergeSort.1 hf
    exact kind_of_mem_partFolds hpart
  spans f hf hkind := (declarationRegion?_eq_some_iff.1 (of_kind_eq_declarations hf hkind)).2
  above f hf hkind g hg hkind' := by
    obtain ⟨-, -, hlast, -⟩ := declarationRegion?_eq_some_iff.1 (of_kind_eq_declarations hf hkind)
    have hpart := mem_partFolds_of_kind hg (by simp [hkind'])
    obtain ⟨-, ⟨-, p, hp, hbody⟩ | ⟨hother, -⟩⟩ := of_mem_partFolds hpart
    · exact hlast.above p hp _ hbody
    · rw [hkind'] at hother
      contradiction
  around f hf hkind g hg hkind' := by
    obtain ⟨hlt, hfirst, hlast, -⟩ :=
      declarationRegion?_eq_some_iff.1 (of_kind_eq_declarations hf hkind)
    have hpart := mem_partFolds_of_kind hg (by simp [hkind'])
    obtain ⟨hlt', ⟨hother, -⟩ | ⟨-, hblock⟩⟩ := of_mem_partFolds hpart
    · rw [hkind'] at hother
      contradiction
    · -- Neither end of the region stands inside of the block.
      obtain ⟨p, hp, hline, -⟩ := hfirst.declared
      obtain ⟨q, hq, hline', -⟩ := hlast.declared
      have hclears := hline ▸ hclear p hp _ hblock
      have hclears' := hline' ▸ hclear q hq _ hblock
      simp only [LineRange.Clears, LineRange.Apart, LineRange.Precedes] at hclears hclears' ⊢
      omega

end Analysis

/-! ## The folds of a text -/

/-- Of its file, an analysis knows what the text says. -/
theorem parts_of_run_builtinAnalyzer {request : Request} {a : Analysis}
    (h : builtinAnalyzer.run request = .ok a) :
    a.proceduresIn request.file = ownProcedures (.ofText request.text.toList) request.file ∧
      a.blocks = (Structure.ofText request.text.toList).blocks := by
  obtain ⟨diagnostics, hasError, hfound⟩ := exists_builtinAnalyzer_eq request
  obtain rfl := Answer.found.inj (hfound.symm.trans (Analyzer.found_of_run_eq_ok h))
  exact ⟨proceduresIn_namesOf _ _ _, rfl⟩

/-- Whatever the text, the mode, the file and the well-formed prior analysis, the built-in
analyzer answers, and the folds of its answer nest. -/
theorem folds_nest (request : Request)
    (hprior : ∀ prior, request.prior = some prior → prior.WellFormed) :
    ∃ a, builtinAnalyzer.run request = .ok a ∧
      a.FoldsNest request.file (Text.lines request.text.toList).length := by
  obtain ⟨a, ha⟩ := exists_run_builtinAnalyzer request hprior
  obtain ⟨hown, hblocks⟩ := parts_of_run_builtinAnalyzer ha
  have hlaid := Structure.laid_ofText request.text.toList
  have hlocal : ∀ p ∈ a.proceduresIn request.file,
      ∃ q ∈ (Structure.ofText request.text.toList).procedures,
        p = { q with file := request.file } := by
    intro p hp
    rw [hown] at hp
    obtain ⟨q, hq, rfl⟩ := List.mem_map.1 hp
    exact ⟨q, hq, rfl⟩
  refine ⟨a, ha, Analysis.foldsNest_of_parts ?_ ?_ ?_ ?_ ?_⟩
  · intro p hp
    obtain ⟨q, hq, rfl⟩ := hlocal p hp
    exact (hlaid.within.procedures q hq).declared
  · intro p hp range hrange
    obtain ⟨q, hq, rfl⟩ := hlocal p hp
    exact (hlaid.within.procedures q hq).body range hrange
  · rw [hblocks]
    exact hlaid.within.blocks
  · rw [hown, hblocks, filterMap_body_ownProcedures]
    exact hlaid.apart
  · intro p hp range hrange
    obtain ⟨q, hq, rfl⟩ := hlocal p hp
    have hclears : range.Clears q.declaredAt := Structure.clears_declaredAt _ hq (hblocks ▸ hrange)
    exact hclears

/-- A block between two forward declarations, behind it a body that is cut off by the next one, and
a procedure of a header on record. -/
def declaredAround : Request :=
  { text := "procedure a;\nvariable begin\nend\nprocedure b;\nprocedure b begin\n" ++
      "\nprocedure a begin\nend"
    file := some "door.ssl"
    mode := .full
    prior := some { procedures := [⟨"helper", 3, some ⟨3, 9⟩, some "tools.h"⟩], parsed := true } }

theorem folds_nest_declaredAround :
    (∀ prior, declaredAround.prior = some prior → prior.WellFormed) ∧
      ∃ a, builtinAnalyzer.run declaredAround = .ok a ∧
        a.FoldsNest declaredAround.file (Text.lines declaredAround.text.toList).length := by
  have hprior : ∀ prior, declaredAround.prior = some prior → prior.WellFormed := by
    intro prior h
    cases h
    exact Analysis.defect?_eq_none_iff.1 (by decide)
  exact ⟨hprior, folds_nest declaredAround hprior⟩

-- The region goes around the block.
example :
    let s := Structure.ofText declaredAround.text.toList
    Analysis.declarationRegion? s.procedures = some ⟨1, 4⟩ ∧ s.blocks = [⟨2, 3⟩] := by
  decide +kernel

end ScriptDesk
