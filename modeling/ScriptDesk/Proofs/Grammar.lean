import ScriptDesk.Proofs.Table
import ScriptDesk.Script.Grammar

/-!
# ScriptDesk.Proofs.Grammar

The full pass reports no error exactly for the texts of the grammar
(`structureAnalyzer_accepts_iff`). Duplicates stand apart from all other issues: they come from
the table alone, and without them what is reported of a segment does not depend on what was
reported before. The one thing that goes over from segment to segment is the number of `begin`s
open. So each lemma says, of one part of a text, when the reading gets through it without
another fault and how many `begin`s are open then.
-/

namespace ScriptDesk.Script

variable {r : Reading} {s : Segment} {rest : List Token} {d : Nat}

/-! ## Duplicates -/

/-- Not both have bodies, or their names differ. -/
def Occurrence.Compatible (a b : Occurrence) : Prop :=
  a.last?.isSome → b.last?.isSome → a.isNamed b.name = false

theorem duplicateOf_eq_nil {earlier : List Occurrence} {o : Occurrence} :
    duplicateOf earlier o = [] ↔ ∀ a ∈ earlier, a.Compatible o := by
  unfold duplicateOf Occurrence.Compatible
  cases hlast : o.last? with
  | none => simp
  | some last =>
    cases hfirst : firstBody? earlier o.name with
    | none => simpa using firstBody?_eq_none.1 hfirst
    | some first =>
      obtain ⟨hmem, hsome, hnamed⟩ := of_firstBody? hfirst
      simp only [reduceCtorEq, false_iff]
      intro h
      rw [h first hmem hsome rfl] at hnamed
      contradiction

theorem duplicatesAfter_eq_nil {earlier os : List Occurrence} :
    duplicatesAfter earlier os = [] ↔
      (∀ a ∈ earlier, ∀ b ∈ os, a.Compatible b) ∧ os.Pairwise Occurrence.Compatible := by
  induction os generalizing earlier with
  | nil => simp
  | cons o os ih =>
    rw [duplicatesAfter, List.append_eq_nil_iff, duplicateOf_eq_nil, ih, List.pairwise_cons]
    simp only [List.forall_mem_append, List.forall_mem_cons, List.not_mem_nil, false_implies,
      implies_true, and_true]
    constructor
    · rintro ⟨hfirst, ⟨hearlier, ho⟩, hrest⟩
      exact ⟨fun a ha => ⟨hfirst a ha, hearlier a ha⟩, ho, hrest⟩
    · rintro ⟨hearlier, ho, hrest⟩
      exact ⟨fun a ha => (hearlier a ha).1, ⟨fun a ha => (hearlier a ha).2, ho⟩, hrest⟩

/-- No duplicates are found if no two bodies are of one name. -/
theorem duplicatesAfter_occurrences_eq_nil (text : List Char) :
    duplicatesAfter [] (occurrences text) = [] ↔
      (segments text).Pairwise fun s s' => ∀ name name',
        HasBody s.tokens name → HasBody s'.tokens name' →
          Text.sameCaseless name name' = false := by
  rw [duplicatesAfter_eq_nil, occurrences, List.pairwise_filterMap]
  simp only [List.not_mem_nil, false_implies, implies_true, true_and]
  refine List.Pairwise.iff fun s s' => ?_
  simp only [hasBody_iff]
  constructor
  · rintro h _ _ ⟨a, ha, hlast, rfl⟩ ⟨b, hb, hlast', rfl⟩
    exact h a ha b hb hlast hlast'
  · intro h a ha b hb hlast hlast'
    exact h a.name b.name ⟨a, ha, hlast, rfl⟩ ⟨b, hb, hlast', rfl⟩

/-! ## Faults -/

namespace Reading

/-- The reading has found nothing wrong but duplicates. -/
def Faultless (r : Reading) : Prop := ∀ i ∈ r.issues, i.problem.isDuplicate = true

theorem not_faultless_report {problem : Problem} {line column length : Nat}
    (h : problem.isDuplicate = false) : ¬ (r.report problem line column length).Faultless := by
  intro hclean
  have := hclean ⟨problem, line, column, length⟩ (by simp [report])
  rw [h] at this
  contradiction

theorem faultless_iff_nil : r.Faultless ∧ r.issues.filter (·.problem.isDuplicate) = [] ↔
    r.issues = [] := by
  constructor
  · rintro ⟨hfaults, hduplicates⟩
    rwa [List.filter_eq_self.2 hfaults] at hduplicates
  · intro h
    simp [Faultless, h]

/-- Once a fault is reported it stays. -/
theorem Faultless.of_foldl_readItem {is : List Item} (h : (is.foldl readItem r).Faultless) :
    r.Faultless := by
  induction is generalizing r with
  | nil => exact h
  | cons i is ih =>
    have hnext := ih h
    unfold readItem at hnext
    split at hnext
    · exact hnext
    · split at hnext
      · exact absurd hnext (not_faultless_report rfl)
      · exact hnext
    · exact hnext
    · exact absurd hnext (not_faultless_report rfl)

/-- The items of tokens are read without a fault if the tokens are loose. -/
theorem readItems_faultless (r : Reading) (ts : List Token) (d : Nat) :
    ((r.readItems ts).Faultless ∧ (r.readItems ts).depth = d) ↔
      r.Faultless ∧ Loose r.depth ts d := by
  unfold readItems
  fun_induction items ts generalizing r with
  | case1 => rw [loose_nil]; rfl
  | case2 t ts hopens e rest hend ih =>
    rw [loose_block_of_some hopens hend]
    exact ih _
  | case3 t ts hopens hend =>
    rw [loose_block_of_none hopens hend]
    simp only [and_false, iff_false, not_and]
    exact fun h => absurd h (not_faultless_report rfl)
  | case4 t ts _ ht ih =>
    rw [loose_opening ht]
    exact ih _
  | case5 t ts _ ht ih =>
    rw [loose_closing ht, List.foldl_cons]
    cases hd : r.depth with
    | zero =>
      have hfault : r.readItem (.closing t) =
          r.report .unmatchedEnd t.line t.column t.text.length := by
        rw [readItem, hd]
      have hnot : ¬ ((items ts).foldl readItem (r.readItem (.closing t))).Faultless := fun h =>
        not_faultless_report rfl (hfault ▸ h.of_foldl_readItem)
      simp [hnot]
    | succ m =>
      have hread : r.readItem (.closing t) = { r with depth := m } := by rw [readItem, hd]
      rw [hread, ih]
      simp [Faultless]
  | case6 t ts hopens hopen hclose ih =>
    rw [loose_other hopen hclose (by simpa using hopens)]
    exact ih _

/-- A heading is entered without a fault if it has none. -/
theorem readHeading_faultless {os : List Occurrence} (h : r.procedures = tableOf os) (s : Segment) :
    (r.readHeading s.opener s.last s.heading).Faultless ↔ r.Faultless ∧ s.faults = [] := by
  rw [readHeading_eq h]
  unfold Faultless
  dsimp only
  simp only [List.forall_mem_append]
  constructor
  · rintro ⟨⟨hr, hs⟩, -⟩
    refine ⟨hr, List.eq_nil_iff_forall_not_mem.2 fun i hi => ?_⟩
    have := hs i hi
    rw [s.not_isDuplicate_of_mem_faults hi] at this
    contradiction
  · rintro ⟨hr, hs⟩
    rw [hs]
    exact ⟨⟨hr, nofun⟩, fun i hi => isDuplicate_of_mem_duplicatesAfter hi⟩

end Reading

/-! ## Segments -/

/-- Exactly the complete segments have no faults. -/
theorem Segment.complete_iff : Complete s.tokens rest ↔ s.faults = [] ∧ s.remaining = rest := by
  constructor
  · intro h
    generalize hs : s.tokens = ts at h
    unfold faults heading remaining
    cases h with
    | nameless hname => simp [parse_eq hs (.nameless hname)]
    | declared hname hheader hstop =>
      simp [parse_eq hs (.declared hname hheader hstop)]
    | @defined name start e header inner _ hname hheader hstart hinner hend =>
      have hmatch : afterEnd? 0 (inner ++ e :: rest) = some (e, rest) :=
        afterEnd?_eq_some_iff.2 ⟨inner, rfl, hinner, hend⟩
      simp [parse_eq hs (.defined hname hheader hstart hmatch)]
  · rintro ⟨hfaults, rfl⟩
    have hsays := s.says_parse
    unfold faults at hfaults
    generalize s.tokens = ts, s.heading = heading, s.remaining = rest at hsays hfaults
    cases hsays with
    | nameless hname => exact .nameless hname
    | unfinished | cutOff => contradiction
    | declared hname hheader hstop => exact .declared hname hheader hstop
    | defined hname hheader hstart hmatch =>
      obtain ⟨inner, rfl, hinner, hend⟩ := afterEnd?_eq_some_iff.1 hmatch
      exact .defined hname hheader hstart hinner hend

namespace Reading

theorem readSegment_faultless {os : List Occurrence} (h : r.procedures = tableOf os) (s : Segment)
    (d : Nat) :
    ((r.readSegment s).Faultless ∧ (r.readSegment s).depth = d) ↔
      r.Faultless ∧ ∃ rest, Complete s.tokens rest ∧ Loose r.depth rest d := by
  have hdepth : (r.readHeading s.opener s.last s.heading).depth = r.depth := by
    rw [readHeading_eq h]
  rw [readSegment, readItems_faultless, readHeading_faultless h, hdepth]
  simp only [Segment.complete_iff]
  constructor
  · rintro ⟨⟨hr, hs⟩, hloose⟩
    exact ⟨hr, _, ⟨hs, rfl⟩, hloose⟩
  · rintro ⟨hr, _, ⟨hs, rfl⟩, hloose⟩
    exact ⟨⟨hr, hs⟩, hloose⟩

theorem foldl_readSegment_faultless {os : List Occurrence} (h : r.procedures = tableOf os)
    (ss : List Segment) (d : Nat) :
    ((ss.foldl readSegment r).Faultless ∧ (ss.foldl readSegment r).depth = d) ↔
      r.Faultless ∧ ∃ rests, List.Forall₂ (fun s rest => Complete s.tokens rest) ss rests ∧
        LooseThrough r.depth rests d := by
  induction ss generalizing r os with
  | nil =>
    constructor
    · rintro ⟨hr, rfl⟩
      exact ⟨hr, [], .nil, .nil⟩
    · rintro ⟨hr, _, ⟨⟩, ⟨⟩⟩
      exact ⟨hr, rfl⟩
  | cons s ss ih =>
    have hs := readSegment_faultless h s
    rw [List.foldl_cons, ih (readSegment_table h s).1]
    constructor
    · rintro ⟨hread, rests, hcomplete, hthrough⟩
      obtain ⟨hr, rest, hrest, hloose⟩ := (hs _).1 ⟨hread, rfl⟩
      exact ⟨hr, rest :: rests, .cons hrest hcomplete, .cons hloose hthrough⟩
    · rintro ⟨hr, _, hcomplete, hthrough⟩
      cases hcomplete with
      | @cons _ rest _ rests hrest hcomplete =>
        cases hthrough with
        | @cons _ m _ _ _ hloose hthrough =>
          obtain ⟨hread, rfl⟩ := (hs m).2 ⟨hr, rest, hrest, hloose⟩
          exact ⟨hread, rests, hcomplete, hthrough⟩

theorem bySegments_faultless (text : List Char) :
    (bySegments text).Faultless ↔
      ∃ rests, List.Forall₂ (fun s rest => Complete s.tokens rest) (segments text) rests ∧
        ∃ d, LooseThrough 0 (leadingTokens text :: rests) d := by
  have hlead := readItems_faultless {} (leadingTokens text)
  have hsegments := foldl_readSegment_faultless (procedures_leadingTokens text) (segments text)
  constructor
  · intro h
    obtain ⟨hr, rests, hcomplete, hthrough⟩ := (hsegments _).1 ⟨h, rfl⟩
    exact ⟨rests, hcomplete, _, .cons ((hlead _).1 ⟨hr, rfl⟩).2 hthrough⟩
  · rintro ⟨rests, hcomplete, d, hthrough⟩
    cases hthrough with
    | cons hloose hthrough =>
      obtain ⟨hr, rfl⟩ := (hlead _).2 ⟨nofun, hloose⟩
      exact ((hsegments d).2 ⟨hr, rests, hcomplete, hthrough⟩).1

end Reading

/-! ## The full pass -/

/-- A text is of the grammar if nothing is found wrong with it. -/
theorem Structure.issues_eq_nil_iff (text : List Char) :
    (ofText text).issues = [] ↔ Grammatical text := by
  obtain ⟨-, -, hissues⟩ := ofText_eq_bySegments text
  rw [hissues, ← Reading.faultless_iff_nil, Reading.bySegments_faultless,
    (Reading.bySegments_table text).2, duplicatesAfter_occurrences_eq_nil]
  exact ⟨fun h => ⟨h.1, h.2⟩, fun h => ⟨h.complete, h.distinct⟩⟩

/-- There are errors among the diagnostics if there are issues. -/
theorem forall_severity_ne_error_iff (s : Structure) (file : Option String) :
    (∀ d ∈ structureDiagnostics s file, d.severity ≠ .error) ↔ s.issues = [] := by
  have herrors := errors_structureDiagnostics s file
  constructor
  · intro h
    have hnone : (structureDiagnostics s file).filter (·.severity == .error) = [] :=
      List.filter_eq_nil_iff.2 fun d hd => by simpa using h d hd
    rw [hnone] at herrors
    exact List.map_eq_nil_iff.1 herrors.nil_eq.symm
  · intro h
    rw [h, List.map_nil] at herrors
    exact fun d hd => by simpa using List.filter_eq_nil_iff.1 herrors.eq_nil d hd

end ScriptDesk.Script

namespace ScriptDesk

open Script (Grammatical Structure)

/-- The full pass reports no error for a text exactly if the text is of the grammar. -/
theorem structureAnalyzer_accepts_iff (request : Request) :
    ∃ a, structureAnalyzer request = .found a ∧
      (a.hasError = false ↔ Grammatical request.text.toList) ∧
      ((∀ d ∈ a.diagnostics, d.severity ≠ .error) ↔ Grammatical request.text.toList) := by
  refine ⟨_, rfl, ?_, ?_⟩
  · rw [← Structure.issues_eq_nil_iff]
    simp
  · rw [← Structure.issues_eq_nil_iff]
    exact Script.forall_severity_ne_error_iff _ _

end ScriptDesk
