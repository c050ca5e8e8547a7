import Mathlib.Data.List.Induction
import ScriptDesk.Analysis.Analyzer
import ScriptDesk.Proofs.Segments

/-!
# ScriptDesk.Proofs.Table

The table of procedures says exactly what the occurrences of names in a text say, whatever
errors stand around them. A segment does two things to the table at most: it notes the
occurrence of its name (`procedures_readSegment`), and it reports what is wrong; the second
has no effect on the first.
-/

namespace ScriptDesk.Script

/-! ## The first occurrences of names -/

theorem eraseDupsBy_loop_concat {α : Type} (r : α → α → Bool) (as seen : List α) (a : α) :
    List.eraseDupsBy.loop r (as ++ [a]) seen =
      if (List.eraseDupsBy.loop r as seen).any (r a) then List.eraseDupsBy.loop r as seen
      else List.eraseDupsBy.loop r as seen ++ [a] := by
  induction as generalizing seen with
  | nil => cases h : seen.any (r a) <;> simp [List.eraseDupsBy.loop, h]
  | cons b as ih => cases h : seen.any (r b) <;> simp [List.eraseDupsBy.loop, h, ih]

namespace Occurrence

theorem isNamed_self (o : Occurrence) : o.isNamed o.name = true := Text.sameCaseless_refl _

theorem isNamed_congr {a b : Occurrence} {name : String} (h : a.isNamed b.name = true) :
    a.isNamed name = b.isNamed name := by
  rw [Bool.eq_iff_iff]
  simp only [isNamed, Text.sameCaseless_iff] at *
  rw [h]

theorem isNamed_comm (a b : Occurrence) : a.isNamed b.name = b.isNamed a.name :=
  Text.sameCaseless_comm _ _

end Occurrence

theorem firsts_concat_any (os : List Occurrence) (o : Occurrence) :
    firsts (os ++ [o]) =
      if (firsts os).any (o.isNamed ·.name) then firsts os else firsts os ++ [o] :=
  eraseDupsBy_loop_concat _ os [] o

theorem any_isNamed_firsts (os : List Occurrence) (name : String) :
    (firsts os).any (·.isNamed name) = os.any (·.isNamed name) := by
  induction os using List.reverseRecOn with
  | nil => rfl
  | append_singleton os o ih =>
    rw [firsts_concat_any]
    split
    · next hknown =>
      obtain ⟨f, hf, hname⟩ := List.any_eq_true.1 hknown
      rw [ih, List.any_append, List.any_cons, List.any_nil, Bool.or_false]
      cases ho : o.isNamed name with
      | false => simp
      | true =>
        rw [← ih, List.any_eq_true.2 ⟨f, hf, (Occurrence.isNamed_congr hname) ▸ ho⟩]
        rfl
    · simp [ih]

/-- A name that was there before does not come in again. -/
theorem firsts_concat (os : List Occurrence) (o : Occurrence) :
    firsts (os ++ [o]) = if os.any (·.isNamed o.name) then firsts os else firsts os ++ [o] := by
  simp only [firsts_concat_any, Occurrence.isNamed_comm o, any_isNamed_firsts]

theorem firstBody?_concat (os : List Occurrence) (o : Occurrence) (name : String) :
    firstBody? (os ++ [o]) name =
      (firstBody? os name).or (if o.last?.isSome && o.isNamed name then some o else none) := by
  simp [firstBody?, List.find?_append, List.find?_singleton]

theorem firstBody?_congr {a b : Occurrence} (os : List Occurrence) (h : a.isNamed b.name = true) :
    firstBody? os a.name = firstBody? os b.name := by
  have hnamed : ∀ o : Occurrence, o.isNamed a.name = o.isNamed b.name := fun o => by
    rw [o.isNamed_comm a, Occurrence.isNamed_congr h, b.isNamed_comm o]
  simp [firstBody?, hnamed]

theorem of_firstBody? {os : List Occurrence} {name : String} {g : Occurrence}
    (h : firstBody? os name = some g) : g ∈ os ∧ g.last?.isSome ∧ g.isNamed name = true := by
  have hg := List.find?_some (p := fun o : Occurrence => o.last?.isSome && o.isNamed name) h
  exact ⟨List.mem_of_find?_eq_some h, Bool.and_eq_true_iff.1 hg⟩

theorem firstBody?_eq_none {os : List Occurrence} {name : String} :
    firstBody? os name = none ↔ ∀ o ∈ os, o.last?.isSome → o.isNamed name = false := by
  simp [firstBody?]

/-- What `firstBody?` finds has a body. -/
theorem exists_body_of_firstBody? {os : List Occurrence} {name : String} {g : Occurrence}
    (h : firstBody? os name = some g) : ∃ last, g.body = some ⟨g.line, last⟩ := by
  obtain ⟨last, hlast⟩ := Option.isSome_iff_exists.1 (of_firstBody? h).2.1
  exact ⟨last, by rw [Occurrence.body, hlast, Option.map_some]⟩

theorem any_eq_false_of_new {os : List Occurrence} {name : String}
    (h : (firsts os).find? (·.isNamed name) = none) : os.any (·.isNamed name) = false := by
  rw [← any_isNamed_firsts]
  simpa using h

theorem firstBody?_of_new {os : List Occurrence} {name : String}
    (h : (firsts os).find? (·.isNamed name) = none) : firstBody? os name = none := by
  refine firstBody?_eq_none.2 fun o ho _ => ?_
  simpa using List.any_eq_false.1 (any_eq_false_of_new h) o ho

/-! ## The table grows -/

/-- An occurrence changes nothing for names that have a body, nor for other names, nor if it has
no body itself. -/
theorem entry_concat_of_not {os : List Occurrence} {o first : Occurrence}
    (h : (firstBody? os first.name).isSome ∨ o.last? = none ∨ o.isNamed first.name = false) :
    entry (os ++ [o]) first = entry os first := by
  unfold entry
  rw [firstBody?_concat]
  rcases h with h | h | h
  · rw [Option.or_of_isSome h]
  · simp [h]
  · simp [h]

/-- It gives its body to a name that had none. -/
theorem entry_concat {os : List Occurrence} {o first : Occurrence}
    (hnone : firstBody? os first.name = none) (hnamed : o.isNamed first.name = true) :
    entry (os ++ [o]) first = { entry os first with body := o.body } := by
  unfold entry
  rw [firstBody?_concat, hnone, hnamed]
  cases h : o.last? <;> simp [h, Occurrence.body]

theorem find?_tableOf (os : List Occurrence) (name : String) :
    (tableOf os).find? (·.isNamed name) =
      ((firsts os).find? (·.isNamed name)).map (entry os) := by
  rw [tableOf, List.find?_map]
  rfl

/-- A new name comes in at the end. -/
theorem tableOf_concat_of_new {os : List Occurrence} {o : Occurrence}
    (h : (firsts os).find? (·.isNamed o.name) = none) :
    tableOf (os ++ [o]) = tableOf os ++ [⟨o.name, o.line, o.body, none⟩] := by
  have hnew : ∀ p ∈ firsts os, p.isNamed o.name = false := by simpa using h
  have hkept : (firsts os).map (entry (os ++ [o])) = (firsts os).map (entry os) :=
    List.map_congr_left fun p hp =>
      entry_concat_of_not (.inr (.inr (o.isNamed_comm p ▸ hnew p hp)))
  have hentry : entry (os ++ [o]) o = ⟨o.name, o.line, o.body, none⟩ :=
    entry_concat (firstBody?_of_new h) o.isNamed_self
  rw [tableOf, firsts_concat, if_neg (by simp [any_eq_false_of_new h]), List.map_append, hkept,
    tableOf, List.map_singleton, hentry]

/-- A name that is known keeps its place, and gets a body if it has none. -/
theorem tableOf_concat_of_known {os : List Occurrence} {o f : Occurrence} (hf : f ∈ firsts os)
    (hnamed : f.isNamed o.name = true) :
    tableOf (os ++ [o]) = (firsts os).map (entry (os ++ [o])) := by
  have hany : os.any (·.isNamed o.name) = true := by
    rw [← any_isNamed_firsts, List.any_eq_true]
    exact ⟨f, hf, hnamed⟩
  rw [tableOf, firsts_concat, if_pos hany]

/-! ## Noting an occurrence -/

namespace Reading

/-- Notes an occurrence. -/
def note (r : Reading) (o : Occurrence) : Reading :=
  match o.body with
  | none => r.declare o.name o.line
  | some range => r.define o.name range o.column

variable {r : Reading} {os : List Occurrence}

theorem procedure?_of_table (h : r.procedures = tableOf os) (name : String) :
    r.procedure? name = ((firsts os).find? (·.isNamed name)).map (entry os) := by
  rw [procedure?, h, find?_tableOf]

theorem define_of_defined {name : String} {p : Procedure} {first range : LineRange} (column : Nat)
    (hp : r.procedure? name = some p) (hbody : p.body = some first) :
    r.define name range column =
      r.report (.duplicateProcedure name first.first) range.first column name.length := by
  obtain ⟨pname, declaredAt, body, file⟩ := p
  cases hbody
  rw [define, hp]

theorem define_of_declared {name : String} {p : Procedure} {range : LineRange} (column : Nat)
    (hp : r.procedure? name = some p) (hbody : p.body = none) :
    r.define name range column =
      { r with procedures := r.procedures.map fun p =>
          if p.isNamed name then { p with body := some range } else p } := by
  obtain ⟨pname, declaredAt, body, file⟩ := p
  cases hbody
  rw [define, hp]

/-- The first occurrence with a body gives it to the name. -/
theorem map_tableOf {o : Occurrence} {range : LineRange} (hbody : o.body = some range)
    (hnone : firstBody? os o.name = none) :
    (tableOf os).map (fun p => if p.isNamed o.name then { p with body := some range } else p) =
      (firsts os).map (entry (os ++ [o])) := by
  rw [tableOf, List.map_map]
  refine List.map_congr_left fun p _ => ?_
  have hsame : (entry os p).isNamed o.name = o.isNamed p.name := (o.isNamed_comm p).symm
  rw [Function.comp_apply, hsame]
  split
  · next hnamed => rw [entry_concat ((firstBody?_congr os hnamed).symm.trans hnone) hnamed, hbody]
  · next hnamed => rw [entry_concat_of_not (.inr (.inr (Bool.not_eq_true _ ▸ hnamed)))]

/-- Another occurrence with a body changes nothing. -/
theorem map_entry_of_defined {o : Occurrence} (hdefined : (firstBody? os o.name).isSome) :
    (firsts os).map (entry (os ++ [o])) = tableOf os := by
  refine List.map_congr_left fun p _ => entry_concat_of_not ?_
  cases hnamed : o.isNamed p.name with
  | false => exact .inr (.inr rfl)
  | true => exact .inl (firstBody?_congr os hnamed ▸ hdefined)

/-- Noting an occurrence brings the table up to date, and reports the occurrence if its body is
a duplicate. -/
theorem note_eq (h : r.procedures = tableOf os) (o : Occurrence) :
    r.note o =
      { r with
        procedures := tableOf (os ++ [o])
        issues := r.issues ++ duplicateOf os o } := by
  have hfind := procedure?_of_table h o.name
  cases hf : (firsts os).find? (·.isNamed o.name) with
  | none =>
    rw [hf, Option.map_none] at hfind
    have hnone := firstBody?_of_new hf
    rw [tableOf_concat_of_new hf, ← h, note]
    cases hlast : o.last? <;>
      simp [Occurrence.body, hlast, declare, define, hfind, duplicateOf, hnone]
  | some f =>
    have hnamed : f.isNamed o.name = true := by simpa using List.find?_some hf
    have hentry : (entry os f).body = (firstBody? os o.name).bind (·.body) := by
      rw [entry, firstBody?_congr os hnamed]
    rw [hf, Option.map_some] at hfind
    rw [tableOf_concat_of_known (List.mem_of_find?_eq_some hf) hnamed, note]
    cases hlast : o.last? with
    | none =>
      have hkept : (firsts os).map (entry (os ++ [o])) = tableOf os :=
        List.map_congr_left fun p _ => entry_concat_of_not (.inr (.inl hlast))
      rw [hkept, ← h]
      simp [Occurrence.body, hlast, declare, hfind, duplicateOf]
    | some last =>
      have hbody : o.body = some ⟨o.line, last⟩ := by rw [Occurrence.body, hlast, Option.map_some]
      rw [hbody]
      cases hg : firstBody? os o.name with
      | none =>
        rw [hg, Option.bind_none] at hentry
        rw [← map_tableOf hbody hg, ← h]
        simp [define_of_declared _ hfind hentry, duplicateOf, hlast, hg]
      | some g =>
        obtain ⟨_, hfirst⟩ := exists_body_of_firstBody? hg
        rw [hg, Option.bind_some, hfirst] at hentry
        rw [map_entry_of_defined (by rw [hg]; rfl), ← h]
        simp [define_of_defined _ hfind hentry, duplicateOf, hlast, hg, report]

end Reading

/-! ## Segment by segment -/

@[simp] theorem duplicatesAfter_nil (os : List Occurrence) : duplicatesAfter os [] = [] := rfl

@[simp] theorem duplicatesAfter_singleton (os : List Occurrence) (o : Occurrence) :
    duplicatesAfter os [o] = duplicateOf os o :=
  List.append_nil _

theorem duplicatesAfter_append (earlier as bs : List Occurrence) :
    duplicatesAfter earlier (as ++ bs) =
      duplicatesAfter earlier as ++ duplicatesAfter (earlier ++ as) bs := by
  induction as generalizing earlier with
  | nil => simp
  | cons o as ih => simp [duplicatesAfter, ih]

theorem isDuplicate_of_mem_duplicatesAfter {earlier os : List Occurrence} {i : Issue}
    (h : i ∈ duplicatesAfter earlier os) : i.problem.isDuplicate = true := by
  induction os generalizing earlier with
  | nil => contradiction
  | cons o os ih =>
    rcases List.mem_append.1 h with h | h
    · unfold duplicateOf at h
      split at h
      · rw [List.mem_singleton.1 h]
        rfl
      · contradiction
    · exact ih h

/-- What is wrong with the heading of a segment, apart from its being a duplicate. -/
def Segment.faults (s : Segment) : List Issue :=
  match s.heading with
  | .unfinished name =>
    [⟨.missingBody name, s.opener.line, s.opener.column, "procedure".length⟩]
  | .cutOff name =>
    [⟨.unterminatedProcedure name, s.opener.line, s.opener.column, "procedure".length⟩]
  | _ => []

theorem Segment.not_isDuplicate_of_mem_faults {s : Segment} {i : Issue} (h : i ∈ s.faults) :
    i.problem.isDuplicate = false := by
  unfold faults at h
  split at h
  · rw [List.mem_singleton.1 h]
    rfl
  · rw [List.mem_singleton.1 h]
    rfl
  · contradiction

namespace Reading

variable {r : Reading} {os : List Occurrence}

/-- A heading brings the table up to date, and reports its faults before its being a
duplicate. -/
theorem readHeading_eq (h : r.procedures = tableOf os) (s : Segment) :
    r.readHeading s.opener s.last s.heading =
      { r with
        procedures := tableOf (os ++ s.occurrence?.toList)
        issues := r.issues ++ s.faults ++ duplicatesAfter os s.occurrence?.toList } := by
  -- The heading reports its faults, if any, and then notes its occurrence.
  have hnote : ∀ o, s.occurrence? = some o →
      note { r with issues := r.issues ++ s.faults } o =
        { r with
          procedures := tableOf (os ++ s.occurrence?.toList)
          issues := r.issues ++ s.faults ++ duplicatesAfter os s.occurrence?.toList } := by
    intro o ho
    rw [note_eq (r := { r with issues := r.issues ++ s.faults }) h, ho, Option.toList_some,
      duplicatesAfter_singleton]
  cases hs : s.heading with
  | nameless => simp [readHeading, Segment.occurrence?, Segment.faults, hs, ← h]
  | unfinished name | declared name | defined name last | cutOff name =>
    rw [← hnote _ (by rw [Segment.occurrence?, hs])]
    simp [readHeading, Segment.faults, hs, missBody, cutOff, report, note, Occurrence.body]

/-- Items outside of procedures do nothing to the table, and report no duplicates. -/
theorem readItem_table (r : Reading) (i : Item) :
    (r.readItem i).procedures = r.procedures ∧
      (r.readItem i).issues.filter (·.problem.isDuplicate) =
        r.issues.filter (·.problem.isDuplicate) := by
  unfold readItem
  split
  · exact ⟨rfl, rfl⟩
  · split
    · exact ⟨rfl, by simp [report, Problem.isDuplicate]⟩
    · exact ⟨rfl, rfl⟩
  · exact ⟨rfl, rfl⟩
  · exact ⟨rfl, by simp [cutOffBlock, report, Problem.isDuplicate]⟩

theorem readItems_table (r : Reading) (ts : List Token) :
    (r.readItems ts).procedures = r.procedures ∧
      (r.readItems ts).issues.filter (·.problem.isDuplicate) =
        r.issues.filter (·.problem.isDuplicate) := by
  unfold readItems
  generalize items ts = is
  induction is generalizing r with
  | nil => exact ⟨rfl, rfl⟩
  | cons i is ih =>
    obtain ⟨hprocedures, hduplicates⟩ := ih (r.readItem i)
    obtain ⟨hprocedures', hduplicates'⟩ := readItem_table r i
    exact ⟨hprocedures.trans hprocedures', hduplicates.trans hduplicates'⟩

/-- A segment notes its occurrence, if there is one. -/
theorem readSegment_table (h : r.procedures = tableOf os) (s : Segment) :
    (r.readSegment s).procedures = tableOf (os ++ s.occurrence?.toList) ∧
      (r.readSegment s).issues.filter (·.problem.isDuplicate) =
        r.issues.filter (·.problem.isDuplicate) ++ duplicatesAfter os s.occurrence?.toList := by
  have hfaults : s.faults.filter (·.problem.isDuplicate) = [] := by
    refine List.filter_eq_nil_iff.2 fun i hi => ?_
    simp [s.not_isDuplicate_of_mem_faults hi]
  have hduplicates : (duplicatesAfter os s.occurrence?.toList).filter (·.problem.isDuplicate) =
      duplicatesAfter os s.occurrence?.toList :=
    List.filter_eq_self.2 fun i hi => isDuplicate_of_mem_duplicatesAfter hi
  obtain ⟨hrest, hrest'⟩ :=
    readItems_table (r.readHeading s.opener s.last s.heading) s.remaining
  rw [readSegment, hrest, hrest', readHeading_eq h]
  simp [hfaults, hduplicates]

theorem foldl_readSegment_table (ss : List Segment) (h : r.procedures = tableOf os) :
    (ss.foldl readSegment r).procedures = tableOf (os ++ ss.filterMap Segment.occurrence?) ∧
      (ss.foldl readSegment r).issues.filter (·.problem.isDuplicate) =
        r.issues.filter (·.problem.isDuplicate) ++
          duplicatesAfter os (ss.filterMap Segment.occurrence?) := by
  induction ss generalizing r os with
  | nil => simp [h]
  | cons s ss ih =>
    obtain ⟨hprocedures, hduplicates⟩ := readSegment_table h s
    obtain ⟨hrest, hrest'⟩ := ih hprocedures
    have hcons : (s :: ss).filterMap Segment.occurrence? =
        s.occurrence?.toList ++ ss.filterMap Segment.occurrence? := by
      rw [List.filterMap_cons]
      cases s.occurrence? <;> rfl
    rw [List.foldl_cons, hrest, hrest', hcons, hduplicates, duplicatesAfter_append,
      List.append_assoc, List.append_assoc]
    exact ⟨rfl, rfl⟩

/-- The tokens in front of the first `procedure` leave the table empty. -/
theorem procedures_leadingTokens (text : List Char) :
    (readItems {} (leadingTokens text)).procedures = tableOf [] :=
  (readItems_table _ _).1

theorem bySegments_table (text : List Char) :
    (bySegments text).procedures = tableOf (occurrences text) ∧
      (bySegments text).issues.filter (·.problem.isDuplicate) =
        duplicatesAfter [] (occurrences text) := by
  obtain ⟨hrest, hrest'⟩ :=
    foldl_readSegment_table (segments text) (procedures_leadingTokens text)
  rw [(readItems_table {} (leadingTokens text)).2] at hrest'
  exact ⟨hrest, hrest'⟩

end Reading

/-! ## The table of a text -/

/-- The diagnostic for an issue. -/
def Issue.diagnostic (file : Option String) (i : Issue) : Diagnostic :=
  ⟨.error, file, i.line, i.column, i.length, i.problem.message⟩

/-- The errors among the diagnostics are those for the issues. -/
theorem errors_structureDiagnostics (s : Structure) (file : Option String) :
    ((structureDiagnostics s file).filter (·.severity == .error)).Perm
      (s.issues.map (Issue.diagnostic file)) := by
  refine ((List.mergeSort_perm _ _).filter _).trans (List.Perm.of_eq ?_)
  rw [List.filter_append, List.filter_eq_self.2, List.filter_eq_nil_iff.2, List.append_nil]
  · rfl
  · intro d hd
    obtain ⟨p, -, rfl⟩ := List.mem_map.1 hd
    exact Bool.false_ne_true
  · intro d hd
    obtain ⟨i, -, rfl⟩ := List.mem_map.1 hd
    rfl

namespace Structure

theorem ofText_eq_bySegments (text : List Char) :
    (ofText text).procedures = (Reading.bySegments text).procedures ∧
      (ofText text).blocks = (Reading.bySegments text).blocks ∧
      (ofText text).issues = (Reading.bySegments text).issues := by
  rw [← Reading.finish_ofTokens]
  exact ⟨rfl, rfl, rfl⟩

theorem procedures_ofText (text : List Char) :
    (ofText text).procedures = tableOf (occurrences text) :=
  (ofText_eq_bySegments text).1.trans (Reading.bySegments_table text).1

/-- Whatever else is wrong with a text, its table of procedures has one entry for each name that
stands behind a `procedure`, in the order of the first occurrences. The entry is declared where
the name occurs first and has the first body of any occurrence; each later body is reported as a
duplicate of that one, and no error is reported that is not an issue. -/
theorem table_of_text (text : List Char) :
    (ofText text).procedures = tableOf (occurrences text) ∧
      (ofText text).issues.filter (·.problem.isDuplicate) =
        duplicatesAfter [] (occurrences text) ∧
      ∀ file, ((structureDiagnostics (ofText text) file).filter (·.severity == .error)).Perm
        ((ofText text).issues.map (Issue.diagnostic file)) := by
  refine ⟨procedures_ofText text, ?_, errors_structureDiagnostics _⟩
  rw [(ofText_eq_bySegments text).2.2]
  exact (Reading.bySegments_table text).2

-- A declaration, then a body in capitals: one entry, as the declaration writes it.
example : tableOf (occurrences "procedure a;\nprocedure A begin\nend".toList) =
    [⟨"a", 1, some ⟨2, 3⟩, none⟩] := by
  decide +kernel

end Structure

end ScriptDesk.Script
