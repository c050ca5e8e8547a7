import ScriptDesk.Text.Line

/-!
# ScriptDesk.Script.Passage

The passages of a text that say nothing: string literals, block comments and line comments. A
text is read from its start, and every character of it is code, belongs to a delimiter of a
passage, or is inside one. A string literal and a line comment end with their line at the latest,
and a block comment runs on until it is closed.

Inside a passage a text may be rephrased. This is said of the text as it was read, whatever
the other text would be read as.
-/

namespace ScriptDesk.Script

/-- A part of a text that says nothing. -/
inductive Passage where
  | string
  | blockComment
  | lineComment
deriving DecidableEq, Repr

/-- What a character of a text is there for. -/
inductive Place where
  | code
  | delimiter (passage : Passage)
  | inside (passage : Passage)
deriving DecidableEq, Repr

/-- The passage that is open on the next line. -/
def Passage.nextLine : (passage : Option Passage) → Option Passage
  | some .blockComment => some .blockComment
  | _ => none

@[simp] theorem Passage.nextLine_nextLine (passage : Option Passage) :
    nextLine (nextLine passage) = nextLine passage := by
  cases passage with
  | none => rfl
  | some passage => cases passage <;> rfl

/-- The place of a character that opens and closes nothing. -/
def Place.of : (passage : Option Passage) → Place
  | none => .code
  | some passage => .inside passage

theorem Place.of_eq_inside_iff {passage : Option Passage} {q : Passage} :
    of passage = .inside q ↔ passage = some q := by
  cases passage <;> simp [of]

/-- The characters of a text, each with its place. The text starts in a passage that is open
already, if there is one. -/
def placedFrom : (passage : Option Passage) → List Char → List (Char × Place)
  | _, [] => []
  | none, '"' :: rest => ('"', .delimiter .string) :: placedFrom (some .string) rest
  | none, '/' :: '/' :: rest =>
    ('/', .delimiter .lineComment) :: ('/', .delimiter .lineComment) ::
      placedFrom (some .lineComment) rest
  | none, '/' :: '*' :: rest =>
    ('/', .delimiter .blockComment) :: ('*', .delimiter .blockComment) ::
      placedFrom (some .blockComment) rest
  | some .string, '"' :: rest => ('"', .delimiter .string) :: placedFrom none rest
  | some .blockComment, '*' :: '/' :: rest =>
    ('*', .delimiter .blockComment) :: ('/', .delimiter .blockComment) :: placedFrom none rest
  | passage, c :: rest =>
    (c, .of passage) ::
      placedFrom (if Text.isLineBreak c then Passage.nextLine passage else passage) rest

/-- The characters of a text, each with its place. -/
def placed (text : List Char) : List (Char × Place) := placedFrom none text

/-- No character is lost. -/
theorem map_fst_placedFrom (passage : Option Passage) (text : List Char) :
    (placedFrom passage text).map Prod.fst = text := by
  fun_induction placedFrom passage text <;> simp_all

/-- Nothing opens or closes at this character, given the one that follows it. -/
def IsPlain : (passage : Option Passage) → (c : Char) → (next? : Option Char) → Prop
  | none, c, next? => c ≠ '"' ∧ (c = '/' → next? ≠ some '/' ∧ next? ≠ some '*')
  | some .string, c, _ => c ≠ '"'
  | some .blockComment, c, next? => c = '*' → next? ≠ some '/'
  | some .lineComment, _, _ => True

theorem isPlain_of_isLineBreak {passage : Option Passage} {c : Char} {next? : Option Char}
    (hc : Text.isLineBreak c = true) : IsPlain passage c next? := by
  have hne : c ≠ '"' ∧ c ≠ '/' ∧ c ≠ '*' := by
    refine ⟨?_, ?_, ?_⟩ <;> rintro rfl <;> contradiction
  cases passage with
  | none => exact ⟨hne.1, fun h => absurd h hne.2.1⟩
  | some passage => cases passage <;> simp [IsPlain, hne]

/-- Only a `/` or a `*` that follows can make a delimiter of a character. -/
theorem IsPlain.of_next? {passage : Option Passage} {c : Char} {next? other? : Option Char}
    (h : IsPlain passage c next?)
    (hnext : ∀ d, d = '/' ∨ d = '*' → other? = some d → next? = some d) :
    IsPlain passage c other? := by
  cases passage with
  | none =>
    refine ⟨h.1, fun hc => ⟨fun ho => (h.2 hc).1 ?_, fun ho => (h.2 hc).2 ?_⟩⟩
    · exact hnext _ (.inl rfl) ho
    · exact hnext _ (.inr rfl) ho
  | some passage =>
    cases passage with
    | string => exact h
    | blockComment => exact fun hc ho => h hc (hnext _ (.inl rfl) ho)
    | lineComment => trivial

theorem placedFrom_of_isPlain {passage : Option Passage} {c : Char} {rest : List Char}
    (h : IsPlain passage c rest.head?) :
    placedFrom passage (c :: rest) =
      (c, .of passage) ::
        placedFrom (if Text.isLineBreak c then Passage.nextLine passage else passage) rest := by
  rw [placedFrom]
  · rintro rfl rfl
    exact h.1 rfl
  · rintro rest rfl rfl rfl
    exact (h.2 rfl).1 rfl
  · rintro rest rfl rfl rfl
    exact (h.2 rfl).2 rfl
  · rintro rfl rfl
    exact h rfl
  · rintro rest rfl rfl rfl
    exact h rfl rfl

/-- Where no delimiter is read, nothing opens or closes. -/
theorem isPlain_of_forall {passage : Option Passage} {c : Char} {rest : List Char}
    (hquote : passage = none → c = '"' → False)
    (hline : ∀ more, passage = none → c = '/' → rest = '/' :: more → False)
    (hblock : ∀ more, passage = none → c = '/' → rest = '*' :: more → False)
    (hunquote : passage = some .string → c = '"' → False)
    (hclose : ∀ more, passage = some .blockComment → c = '*' → rest = '/' :: more → False) :
    IsPlain passage c rest.head? := by
  have hmore : ∀ d, rest.head? = some d → ∃ more, rest = d :: more :=
    fun d hd => List.head?_eq_some_iff.1 hd
  cases passage with
  | none =>
    refine ⟨hquote rfl, fun hc => ⟨fun hd => ?_, fun hd => ?_⟩⟩
    · exact (hmore _ hd).elim fun more h => hline more rfl hc h
    · exact (hmore _ hd).elim fun more h => hblock more rfl hc h
  | some passage =>
    cases passage with
    | string => exact hunquote rfl
    | blockComment => exact fun hc hd => (hmore _ hd).elim fun more h => hclose more rfl hc h
    | lineComment => trivial

/-- The other text says the same but for what is inside of passages. Line breaks stay, and so
do `*` and `/` inside of a block comment. -/
inductive Rephrases : List (Char × Place) → (other : List Char) → Prop where
  | nil : Rephrases [] []
  | kept {rest other} (c : Char) (place : Place) :
    Rephrases rest other → Rephrases ((c, place) :: rest) (c :: other)
  | inString {rest other} (c d : Char) :
    Text.isLineBreak c = false → Text.isLineBreak d = false → d ≠ '"' →
      Rephrases rest other → Rephrases ((c, .inside .string) :: rest) (d :: other)
  | inBlockComment {rest other} (c d : Char) :
    Text.isLineBreak c = false → Text.isLineBreak d = false → c ∉ ['*', '/'] → d ∉ ['*', '/'] →
      Rephrases rest other → Rephrases ((c, .inside .blockComment) :: rest) (d :: other)
  /-- The rest of a line behind `//` may also be longer or shorter. -/
  | inLineComment {rest other} (old : List (Char × Place)) (new : List Char) :
    (∀ x ∈ old, Text.isLineBreak x.1 = false ∧ x.2 = .inside .lineComment) →
      (∀ d ∈ new, Text.isLineBreak d = false) → Rephrases rest other →
        Rephrases
          (('/', .delimiter .lineComment) :: ('/', .delimiter .lineComment) :: (old ++ rest))
          ('/' :: '/' :: (new ++ other))

end ScriptDesk.Script
