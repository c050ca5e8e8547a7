import ScriptDesk.Proofs.Folding

/-!
# ScriptDesk.Proofs.Locating

The procedure at a line (`Analysis.enclosing?`) is looked up in the order of first declarations,
which says nothing about where the bodies are. The answer is right all the same: bodies share one
line at most, so away from their first and last lines only one procedure can be found, and only
one fold is around it (`Analysis.locates_of_apart`). The line that two bodies share goes to the one
that was declared first.

Both modes find the same procedures, so they locate alike (`enclosing_agrees`).
-/

namespace ScriptDesk

open Script (LineRange Procedure Structure)

namespace Script.Procedure

/-- The body of the procedure covers the line. -/
def Covers (p : Procedure) (line : Nat) : Prop :=
  ∃ range, p.body = some range ∧ range.first ≤ line ∧ line ≤ range.last

theorem any_covers_iff {p : Procedure} {line : Nat} :
    p.body.any (·.covers line) = true ↔ p.Covers line := by
  cases hbody : p.body <;> simp [Covers, hbody, LineRange.covers_iff]

end Script.Procedure

namespace Analysis

variable {a : Analysis} {file : Option String} {line : Nat}

/-! ## What is looked up -/

/-- If a body covers the line, a procedure is found whose body does. -/
theorem exists_enclosing?_of_covers {p : Procedure} (hp : p ∈ a.procedures)
    (hcovers : p.Covers line) :
    ∃ q ∈ a.procedures, q.Covers line ∧ a.enclosing? line = some q := by
  have hfound : (a.procedures.find? fun q => q.body.any (·.covers line)).isSome = true :=
    List.find?_isSome.2 ⟨p, hp, Procedure.any_covers_iff.2 hcovers⟩
  obtain ⟨q, hq⟩ := Option.isSome_iff_exists.1 hfound
  have hcovers := List.find?_some hq
  refine ⟨q, List.mem_of_find?_eq_some hq, Procedure.any_covers_iff.1 hcovers, ?_⟩
  unfold enclosing?
  rw [hq]
  rfl

/-- If no body covers the line, the procedures declared on it are left. -/
theorem enclosing?_of_not_covers (h : ∀ p ∈ a.procedures, ¬ p.Covers line) :
    a.enclosing? line = a.procedures.find? (·.declaredAt == line) := by
  have hnone : (a.procedures.find? fun p => p.body.any (·.covers line)) = none :=
    List.find?_eq_none.2 fun p hp hany => h p hp (Procedure.any_covers_iff.1 hany)
  unfold enclosing?
  rw [hnone]
  rfl

/-! ## The inside of a body -/

/-- A range that lies apart does not reach into the inside of the other one. -/
theorem not_covers_of_apart {r range : LineRange} (hapart : r.Apart range)
    (hfirst : range.first < line) (hlast : line < range.last) :
    ¬ (r.first ≤ line ∧ line ≤ r.last) := by
  simp only [LineRange.Apart, LineRange.Precedes] at hapart
  omega

/-- Where the bodies lie apart, the inside of one of them is covered by no other. -/
theorem eq_of_covers_inside (happart : (a.procedures.filterMap (·.body)).Pairwise LineRange.Apart)
    {p q : Procedure} (hp : p ∈ a.procedures) (hq : q ∈ a.procedures) {range : LineRange}
    (hbody : p.body = some range) (hfirst : range.first < line) (hlast : line < range.last)
    (hcovers : q.Covers line) : q = p := by
  by_contra hne
  have hsymm : Std.Symm fun p q : Procedure => ∀ range, p.body = some range →
      ∀ range', q.body = some range' → range.Apart range' :=
    ⟨fun _ _ h range hrange range' hrange' => (h range' hrange' range hrange).symm⟩
  have hpairs := (List.pairwise_filterMap.1 happart).forall hq hp hne
  obtain ⟨range', hbody', hcovers⟩ := hcovers
  exact not_covers_of_apart (hpairs range' hbody' range hbody) hfirst hlast hcovers

/-- Of folds that lie apart, only one is around the inside of its range. -/
theorem filter_covers_of_apart {fs : List Fold}
    (happart : (fs.map (·.range)).Pairwise LineRange.Apart)
    {f : Fold} (hf : f ∈ fs) (hfirst : f.range.first < line) (hlast : line < f.range.last) :
    fs.filter (·.range.covers line) = [f] := by
  obtain ⟨before, after, rfl⟩ := List.append_of_mem hf
  obtain ⟨-, hafter, hbefore⟩ := List.pairwise_append.1 (List.pairwise_map.1 happart)
  have houtside : ∀ g : Fold, g.range.Apart f.range → ¬ g.range.covers line = true := by
    intro g hapart hcovers
    exact not_covers_of_apart hapart hfirst hlast (LineRange.covers_iff.1 hcovers)
  rw [List.filter_append, List.filter_cons_of_pos, List.filter_eq_nil_iff.2,
    List.filter_eq_nil_iff.2]
  · rfl
  · exact fun g hg => houtside g ((List.pairwise_cons.1 hafter).1 g hg).symm
  · exact fun g hg => houtside g (hbefore g hg f List.mem_cons_self)
  · exact LineRange.covers_iff.2 ⟨Nat.le_of_lt hfirst, Nat.le_of_lt hlast⟩

/-- The fold of a body is the only one around the inside of the body: the blocks lie apart from it,
and the declaration region ends above it. -/
theorem filter_covers_folds
    (happart : ((a.proceduresIn file).filterMap (·.body) ++ a.blocks).Pairwise LineRange.Apart)
    {p : Procedure} (hp : p ∈ a.proceduresIn file) {range : LineRange}
    (hbody : p.body = some range) (hfirst : range.first < line) (hlast : line < range.last) :
    (a.folds file).filter (·.range.covers line) =
      [⟨range, Text.upperCase p.name, .procedure⟩] := by
  have hfold : ⟨range, Text.upperCase p.name, .procedure⟩ ∈ a.partFolds file :=
    List.mem_append_left _ (List.mem_filterMap.2
      ⟨p, hp, bodyFold?_eq_some_iff.2 ⟨range, hbody, Nat.lt_trans hfirst hlast, rfl⟩⟩)
  have hparts : (a.partFolds file).filter (·.range.covers line) =
      [⟨range, Text.upperCase p.name, .procedure⟩] := by
    refine filter_covers_of_apart ?_ hfold hfirst hlast
    rw [map_range_partFolds]
    exact happart.filter _
  have hregion : (regionFold? (a.proceduresIn file)).toList.filter (·.range.covers line) = [] := by
    refine List.filter_eq_nil_iff.2 fun f hf hcovers => ?_
    obtain ⟨region, hregion, rfl⟩ := Option.map_eq_some_iff.1 (Option.mem_toList.1 hf)
    have habove := (declarationRegion?_eq_some_iff.1 hregion).2.2.1.above p hp range hbody
    have hcovers := LineRange.covers_iff.1 hcovers
    dsimp only at hcovers
    omega
  have hsorted := ((a.partFolds file).mergeSort_perm (·.range.first ≤ ·.range.first)).filter
    (·.range.covers line)
  rw [hparts] at hsorted
  rw [folds_eq, List.filter_append, hregion, List.nil_append, List.perm_singleton.1 hsorted]

/-! ## Locating -/

/-- Looking up the line agrees with where the procedures of the file are. -/
structure Locates (a : Analysis) (file : Option String) (line : Nat) : Prop where
  /-- What is found is a procedure at the line. -/
  found : ∀ p, a.enclosing? line = some p →
    p ∈ a.procedures ∧ (p.Covers line ∨ p.declaredAt = line)
  covered_iff : (∃ p, a.enclosing? line = some p ∧ p.Covers line) ↔
    ∃ p ∈ a.procedures, p.Covers line
  /-- On the inside of a body its procedure is found, which is the only one that covers the line,
  as its fold is the only one around it. -/
  inside : ∀ p ∈ a.procedures, ∀ range, p.body = some range →
    range.first < line → line < range.last →
      a.enclosing? line = some p ∧ (∀ q ∈ a.procedures, q.Covers line → q = p) ∧
        (a.folds file).filter (·.range.covers line) =
          [⟨range, Text.upperCase p.name, .procedure⟩]
  declared_iff : (∀ p ∈ a.procedures, ¬ p.Covers line) →
    ((∃ p, a.enclosing? line = some p ∧ p.declaredAt = line) ↔
      ∃ p ∈ a.procedures, p.declaredAt = line)

/-- Where bodies and blocks lie apart and all procedures are of the file, every line is located. -/
theorem locates_of_apart (hlocal : a.proceduresIn file = a.procedures)
    (happart : (a.procedures.filterMap (·.body) ++ a.blocks).Pairwise LineRange.Apart)
    (line : Nat) : a.Locates file line where
  found p h := by
    by_cases hcovers : ∃ q ∈ a.procedures, q.Covers line
    · obtain ⟨q, hq, hcovers⟩ := hcovers
      obtain ⟨r, hr, hcovers, hfound⟩ := exists_enclosing?_of_covers hq hcovers
      obtain rfl := Option.some.inj (h.symm.trans hfound)
      exact ⟨hr, .inl hcovers⟩
    · rw [enclosing?_of_not_covers fun q hq hc => hcovers ⟨q, hq, hc⟩] at h
      exact ⟨List.mem_of_find?_eq_some h, .inr (by simpa using List.find?_some h)⟩
  covered_iff := by
    constructor
    · rintro ⟨p, hp, hcovers⟩
      by_contra hnone
      rw [enclosing?_of_not_covers fun q hq hc => hnone ⟨q, hq, hc⟩] at hp
      exact hnone ⟨p, List.mem_of_find?_eq_some hp, hcovers⟩
    · rintro ⟨p, hp, hcovers⟩
      obtain ⟨q, -, hcovers, hfound⟩ := exists_enclosing?_of_covers hp hcovers
      exact ⟨q, hfound, hcovers⟩
  inside p hp range hbody hfirst hlast := by
    have honly : ∀ q ∈ a.procedures, q.Covers line → q = p := fun q hq =>
      eq_of_covers_inside (List.pairwise_append.1 happart).1 hp hq hbody hfirst hlast
    obtain ⟨q, hq, hcovers, hfound⟩ := exists_enclosing?_of_covers hp
      ⟨range, hbody, Nat.le_of_lt hfirst, Nat.le_of_lt hlast⟩
    rw [← hlocal] at happart hp
    exact ⟨honly q hq hcovers ▸ hfound, honly,
      filter_covers_folds happart hp hbody hfirst hlast⟩
  declared_iff huncovered := by
    rw [enclosing?_of_not_covers huncovered]
    constructor
    · rintro ⟨p, hp, hline⟩
      exact ⟨p, List.mem_of_find?_eq_some hp, hline⟩
    · rintro ⟨p, hp, hline⟩
      have hfound : (a.procedures.find? (·.declaredAt == line)).isSome = true :=
        List.find?_isSome.2 ⟨p, hp, by simpa using hline⟩
      obtain ⟨q, hq⟩ := Option.isSome_iff_exists.1 hfound
      exact ⟨q, hq, by simpa using List.find?_some hq⟩

end Analysis

/-! ## The procedures of a text -/

/-- Without a prior analysis, just the procedures of the text are found. -/
theorem procedures_of_run_builtinAnalyzer {request : Request} {a : Analysis}
    (hprior : request.prior = none) (h : builtinAnalyzer.run request = .ok a) :
    a.procedures = ownProcedures (.ofText request.text.toList) request.file := by
  rw [← (parts_of_run_builtinAnalyzer h).1]
  exact (List.filter_eq_self.2 (isLocal_of_run_builtinAnalyzer hprior h)).symm

/-- Without a prior analysis, every line is located, in either mode. -/
theorem locates_of_run_builtinAnalyzer {request : Request} {a : Analysis}
    (hprior : request.prior = none) (h : builtinAnalyzer.run request = .ok a) (line : Nat) :
    a.Locates request.file line := by
  obtain ⟨hown, hblocks⟩ := parts_of_run_builtinAnalyzer h
  have hprocedures := procedures_of_run_builtinAnalyzer hprior h
  refine Analysis.locates_of_apart (hown.trans hprocedures.symm) ?_ line
  rw [hprocedures, hblocks, filterMap_body_ownProcedures]
  exact Structure.pairwise_apart request.text.toList

/-- Both modes answer every text, and locate its lines alike and where its procedures are. -/
theorem enclosing_agrees (text : String) (file : Option String) :
    ∃ minimal full, builtinAnalyzer.run ⟨text, file, .minimal, none⟩ = .ok minimal ∧
      builtinAnalyzer.run ⟨text, file, .full, none⟩ = .ok full ∧
        ∀ line, minimal.Locates file line ∧ full.Locates file line ∧
          minimal.enclosing? line = full.enclosing? line := by
  obtain ⟨minimal, hminimal⟩ := exists_run_builtinAnalyzer ⟨text, file, .minimal, none⟩ nofun
  obtain ⟨full, hfull⟩ := exists_run_builtinAnalyzer ⟨text, file, .full, none⟩ nofun
  refine ⟨minimal, full, hminimal, hfull, fun line => ⟨?_, ?_, ?_⟩⟩
  · exact locates_of_run_builtinAnalyzer rfl hminimal line
  · exact locates_of_run_builtinAnalyzer rfl hfull line
  · have hsame : minimal.procedures = full.procedures :=
      (procedures_of_run_builtinAnalyzer rfl hminimal).trans
        (procedures_of_run_builtinAnalyzer rfl hfull).symm
    unfold Analysis.enclosing?
    rw [hsame]

-- Two bodies share the second line, which goes to the one that was declared first.
example :
    let s := Structure.ofText "procedure b;procedure a begin\nend procedure b begin\nend".toList
    s.procedures.map (·.body) = [some ⟨2, 3⟩, some ⟨1, 2⟩] ∧
      ({ procedures := s.procedures } : Analysis).enclosing? 2 =
        some ⟨"b", 1, some ⟨2, 3⟩, none⟩ := by
  decide +kernel

end ScriptDesk
