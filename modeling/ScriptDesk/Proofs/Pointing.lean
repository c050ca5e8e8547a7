import ScriptDesk.Proofs.Table
import ScriptDesk.Proofs.Words

/-!
# ScriptDesk.Proofs.Pointing

Where the errors of a full pass point. Each one is reported on a keyword of the text
(`Reading.Anchored`): a reading takes the place of the keyword with it as long as the part that
the keyword opens is open. The number of characters is chosen where the error is reported, and it
is that of the keyword, but for one problem: a second body is reported on its `procedure` with
the length of its name. So its error marks a word only if the name is as long as `procedure`
(`structureAnalyzer_marks_iff`).
-/

namespace ScriptDesk

namespace Script

/-! ## Keywords -/

/-- The keyword on which the problem is reported. -/
def Problem.keyword : Problem → String
  | .unmatchedEnd => "end"
  | .unterminatedVariables => "variable"
  | .unterminatedProcedure _ | .missingBody _ | .duplicateProcedure _ _ => "procedure"

/-- A semicolon is no keyword. -/
theorem Problem.one_lt_length_keyword (problem : Problem) : 1 < problem.keyword.length := by
  cases problem <;> simp only [Problem.keyword] <;> decide

/-- The number of characters with which the problem is reported. -/
def Problem.markedLength : Problem → Nat
  | .duplicateProcedure name _ => name.length
  | problem => problem.keyword.length

variable {ts : List Token} {t : Token} {keyword : String} {line column : Nat}

/-- The keyword that has the role, if there is one. -/
def Role.keyword? : Role → Option String
  | .procedure => some "procedure"
  | .variables => some "variable"
  | .opening => some "begin"
  | .closing => some "end"
  | .semicolon | .word => none

theorem Token.sameCaseless_of_role (h : t.role.keyword? = some keyword) :
    Text.sameCaseless t.text keyword = true := by
  grind [Token.role, Role.keyword?]

/-- Case makes no difference to the length. -/
theorem length_eq_of_sameCaseless {a b : String} (h : Text.sameCaseless a b = true) :
    a.length = b.length := by
  have hfold := congrArg List.length (Text.sameCaseless_iff.1 h)
  simp only [Text.foldCase, List.length_map] at hfold
  exact hfold

/-- One of the tokens is that keyword, in any case, and stands at that place. -/
def KeywordAt (ts : List Token) (keyword : String) (line column : Nat) : Prop :=
  ∃ t ∈ ts, Text.sameCaseless t.text keyword = true ∧ t.line = line ∧ t.column = column

theorem KeywordAt.of_mem (ht : t ∈ ts) (hrole : t.role.keyword? = some keyword) :
    KeywordAt ts keyword t.line t.column :=
  ⟨t, ht, Token.sameCaseless_of_role hrole, rfl, rfl⟩

/-! ## Reports on keywords -/

/-- The part that is open was opened by its keyword. -/
def Context.OpenedIn (ts : List Token) : Context → Prop
  | .top => True
  | .naming line column | .header _ line column | .body _ line column _ =>
    KeywordAt ts "procedure" line column
  | .variables line column | .block line column _ => KeywordAt ts "variable" line column

/-- The issue is reported on the keyword of its problem. -/
structure Issue.PlacedIn (ts : List Token) (i : Issue) : Prop where
  keyword : KeywordAt ts i.problem.keyword i.line i.column
  length : i.length = i.problem.markedLength

/-- The part that is open and the issues stand on keywords of the tokens. -/
structure Reading.Anchored (ts : List Token) (r : Reading) : Prop where
  context : r.context.OpenedIn ts
  issues : ∀ i ∈ r.issues, i.PlacedIn ts

namespace Reading

variable {r : Reading} {name : String}

theorem Anchored.enter (h : r.Anchored ts) {context : Context} (hc : context.OpenedIn ts) :
    (r.enter context).Anchored ts :=
  { h with context := hc }

theorem Anchored.report (h : r.Anchored ts) (problem : Problem) {length : Nat}
    (hkeyword : KeywordAt ts problem.keyword line column)
    (hlength : length = problem.markedLength) :
    (r.report problem line column length).Anchored ts := by
  refine { h with issues := fun i hi => ?_ }
  rcases List.mem_append.1 hi with hi | hi
  · exact h.issues i hi
  · rw [List.mem_singleton.1 hi]
    exact ⟨hkeyword, hlength⟩

theorem Anchored.declare (h : r.Anchored ts) (name : String) (line : Nat) :
    (r.declare name line).Anchored ts := by
  unfold Reading.declare
  split
  · exact h
  · exact ⟨h.context, h.issues⟩

theorem Anchored.define (h : r.Anchored ts) (name : String) (range : LineRange)
    (hkeyword : KeywordAt ts "procedure" range.first column) :
    (r.define name range column).Anchored ts := by
  unfold Reading.define
  split
  · exact h.report _ hkeyword rfl
  · exact ⟨h.context, h.issues⟩
  · exact ⟨h.context, h.issues⟩

theorem Anchored.cutOff (h : r.Anchored ts) (name : String) (last : Nat)
    (hkeyword : KeywordAt ts "procedure" line column) :
    (r.cutOff name line column last).Anchored ts :=
  (h.report (.unterminatedProcedure name) hkeyword rfl).define name ⟨line, max last line⟩ hkeyword

theorem Anchored.missBody (h : r.Anchored ts) (name : String)
    (hkeyword : KeywordAt ts "procedure" line column) :
    (r.missBody name line column).Anchored ts :=
  (h.report (.missingBody name) hkeyword rfl).declare name line

theorem Anchored.cutOffBlock (h : r.Anchored ts) (hkeyword : KeywordAt ts "variable" line column) :
    (r.cutOffBlock line column).Anchored ts :=
  h.report .unterminatedVariables hkeyword rfl

theorem Anchored.stepTop (h : r.Anchored ts) (ht : t ∈ ts) : (r.stepTop t).Anchored ts := by
  unfold Reading.stepTop
  split
  · next hrole => exact h.enter (.of_mem ht (congrArg Role.keyword? hrole))
  · next hrole => exact h.enter (.of_mem ht (congrArg Role.keyword? hrole))
  · exact ⟨trivial, h.issues⟩
  · next hrole =>
    have hkeyword : t.role.keyword? = some "end" := congrArg Role.keyword? hrole
    have hlength := length_eq_of_sameCaseless (Token.sameCaseless_of_role hkeyword)
    split
    · exact (h.report .unmatchedEnd (.of_mem ht hkeyword) hlength).enter trivial
    · exact ⟨trivial, h.issues⟩
  · exact h.enter trivial
  · exact h.enter trivial

/-- A token more leaves everything on keywords. -/
theorem Anchored.step (h : r.Anchored ts) (ht : t ∈ ts) : (r.step t).Anchored ts := by
  have hctx := h.context
  unfold Reading.step
  split
  · exact h.stepTop ht
  · next line column hc =>
    rw [hc] at hctx
    split
    · exact h.enter hctx
    · exact h.enter hctx
    · exact h.stepTop ht
  · next name line column hc =>
    rw [hc] at hctx
    split
    · exact (h.declare name line).enter trivial
    · exact h.enter hctx
    · exact (h.missBody name hctx).stepTop ht
    · exact h
  · next name line column nested hc =>
    rw [hc] at hctx
    split
    · exact h.enter hctx
    · split
      · exact (h.define name ⟨line, t.line⟩ hctx).enter trivial
      · exact h.enter hctx
    · exact (h.cutOff name _ hctx).stepTop ht
    · exact h
  · next line column hc =>
    rw [hc] at hctx
    split
    · exact h.enter hctx
    · exact h.stepTop ht
  · next line column nested hc =>
    rw [hc] at hctx
    split
    · exact h.enter hctx
    · split
      · exact ⟨trivial, h.issues⟩
      · exact h.enter hctx
    · exact (h.cutOffBlock hctx).stepTop ht
    · exact h

theorem Anchored.foldl {us : List Token} (h : r.Anchored ts) (hsub : us ⊆ ts) :
    (us.foldl Reading.step r).Anchored ts := by
  induction us generalizing r with
  | nil => exact h
  | cons t us ih =>
    obtain ⟨ht, hus⟩ := List.cons_subset.1 hsub
    exact ih (h.step ht) hus

theorem Anchored.finish (h : r.Anchored ts) (last : Nat) : (r.finish last).Anchored ts := by
  have hctx := h.context
  unfold Reading.finish
  split
  · next name line column nested hc =>
    rw [hc] at hctx
    exact h.cutOff name last hctx
  · next name line column hc =>
    rw [hc] at hctx
    exact h.missBody name hctx
  · next line column nested hc =>
    rw [hc] at hctx
    exact h.cutOffBlock hctx
  all_goals exact h

end Reading

/-- The issues of a text are reported on keywords of the text. -/
theorem Structure.placedIn_of_mem_issues {text : List Char} {i : Issue}
    (h : i ∈ (ofText text).issues) : i.PlacedIn (codeTokens text) := by
  have hstart : Reading.Anchored (codeTokens text) {} := ⟨trivial, nofun⟩
  exact ((hstart.foldl (List.Subset.refl _)).finish _).issues i h

/-- An issue stands in the text, on the keyword of its problem. -/
theorem Issue.PlacedIn.exists_standsAt {text : List Char} {i : Issue}
    (h : i.PlacedIn (codeTokens text)) :
    ∃ word, StandsAt text i.line i.column word.toList ∧
      Text.sameCaseless word i.problem.keyword = true := by
  obtain ⟨t, ht, hkeyword, hline, hcolumn⟩ := h.keyword
  rw [← hline, ← hcolumn]
  refine ⟨t.text, ?_, hkeyword⟩
  rcases standsAt_of_mem_codeTokens ht with hsemicolon | hword
  · have hlength := length_eq_of_sameCaseless hkeyword
    rw [hsemicolon] at hlength
    exact absurd hlength (Nat.ne_of_lt i.problem.one_lt_length_keyword)
  · exact hword

end Script

open Script

/-! ## Diagnostics -/

/-- The diagnostic marks a word of the text: the characters from its place on, as many as it
says, are that word and nothing else. -/
def Diagnostic.Marks (d : Diagnostic) (text word : List Char) : Prop :=
  StandsAt text d.line d.column word ∧ d.length = word.length

/-- The diagnostic is for the problem, and stands on its keyword. -/
structure Diagnostic.Reports (d : Diagnostic) (text : List Char) (problem : Problem) : Prop where
  message : d.message = problem.message
  keyword : ∃ word, StandsAt text d.line d.column word.toList ∧
    Text.sameCaseless word problem.keyword = true
  length : d.length = problem.markedLength

theorem Diagnostic.Reports.marks_iff {d : Diagnostic} {text : List Char} {problem : Problem}
    (h : d.Reports text problem) : (∃ word, d.Marks text word) ↔
      ∀ name firstLine, problem = .duplicateProcedure name firstLine →
        name.length = "procedure".length := by
  have hmarked : problem.markedLength = problem.keyword.length ↔
      ∀ name firstLine, problem = .duplicateProcedure name firstLine →
        name.length = "procedure".length := by
    cases problem <;> simp [Problem.markedLength, Problem.keyword]
  obtain ⟨keyword, hstands, hsame⟩ := h.keyword
  have hlength : keyword.toList.length = problem.keyword.length := length_eq_of_sameCaseless hsame
  rw [← hmarked, ← h.length, ← hlength]
  constructor
  · rintro ⟨word, hword, hmarks⟩
    rw [hmarks, hword.unique hstands]
  · intro hmarks
    exact ⟨keyword.toList, hstands, hmarks⟩

/-- Each error of a full pass stands on the keyword of its problem. It marks a word of the text
exactly if the problem is no second body, or one of a name that is as long as `procedure`. -/
theorem structureAnalyzer_marks_iff (request : Request) :
    ∃ a, structureAnalyzer request = .found a ∧ ∀ d ∈ a.diagnostics, d.severity = .error →
      ∃ problem : Problem, d.Reports request.text.toList problem ∧
        ((∃ word, d.Marks request.text.toList word) ↔
          ∀ name firstLine, problem = .duplicateProcedure name firstLine →
            name.length = "procedure".length) := by
  refine ⟨_, rfl, fun d hd herror => ?_⟩
  have hperm := errors_structureDiagnostics (.ofText request.text.toList) request.file
  have hissue := hperm.mem_iff.1 (List.mem_filter.2 ⟨hd, by simp [herror]⟩)
  obtain ⟨i, hi, rfl⟩ := List.mem_map.1 hissue
  have hplaced := Structure.placedIn_of_mem_issues hi
  have hreports : (i.diagnostic request.file).Reports request.text.toList i.problem :=
    { message := rfl
      keyword := hplaced.exists_standsAt
      length := hplaced.length }
  exact ⟨i.problem, hreports, hreports.marks_iff⟩

/-- A procedure of a short name with two bodies. -/
def secondBody : Request :=
  { text := "procedure a begin\nend\nprocedure A begin\nend\n"
    file := none
    mode := .full
    prior := none }

/-- The error for the second body marks the first letter of its `procedure`. -/
theorem secondBody_marks_no_word :
    ∃ a, structureAnalyzer secondBody = .found a ∧ ∃ d ∈ a.diagnostics,
      d = ⟨.error, none, 3, 1, 1, "procedure `A` is already defined at line 1"⟩ ∧
        ¬ ∃ word, d.Marks secondBody.text.toList word := by
  have hissue : ⟨.duplicateProcedure "A" 1, 3, 1, 1⟩ ∈
      (Structure.ofText secondBody.text.toList).issues := by decide +kernel
  have herror := (errors_structureDiagnostics (.ofText secondBody.text.toList) none).mem_iff.2
    (List.mem_map_of_mem hissue)
  refine ⟨_, rfl, _, (List.mem_filter.1 herror).1, rfl, ?_⟩
  have hstands : StandsAt secondBody.text.toList 3 1 "procedure".toList := by
    have hstarts : Starts [] "procedure".toList :=
      ⟨⟨'p', by decide, by decide⟩, List.all_eq_true.1 (by decide), by simp⟩
    have hends : EndsWord " A begin\n".toList := by
      rintro c ⟨⟩
      decide
    exact ⟨by decide, "procedure A begin\n".toList, by decide +kernel, [], " A begin\n".toList,
      by decide, rfl, hstarts, hends⟩
  rintro ⟨word, hword, hlength⟩
  rw [hword.unique hstands] at hlength
  contradiction

end ScriptDesk
