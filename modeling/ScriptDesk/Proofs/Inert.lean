import ScriptDesk.Analysis.Analyzer
import ScriptDesk.Proofs.Cleaning

/-!
# ScriptDesk.Proofs.Inert

What stands in string literals and comments is inert: a text that rephrases another inside of
them is analyzed alike (`analyzers_rephrase`).

The reading of the other text is in the same passage at each point (`cleanPlaced_of_rephrases`). A
character that opens or closes nothing does so in the other text as well, since no `/`, `*` or
quote comes in where it could matter; and cleaning leaves of it what it leaves of the
character that was there.
-/

namespace ScriptDesk

namespace Script

open Text (isLineBreak)

variable {c : Char} {text other : List Char} {passage : Option Passage}

/-! ## The next character -/

theorem place_of_head? {x : Char × Place} (h : (placedFrom passage text).head? = some x) :
    x.2 = .of passage ∨ ∃ q, x.2 = .delimiter q := by
  revert h
  fun_cases placedFrom passage text with
  | case1 => exact nofun
  | case2 | case3 | case4 | case5 | case6 =>
    rintro ⟨⟩
    exact .inr ⟨_, rfl⟩
  | case7 =>
    rintro ⟨⟩
    exact .inl rfl

theorem passage_of_placedFrom_eq {q : Passage} {rest : List (Char × Place)}
    (h : placedFrom passage text = (c, .inside q) :: rest) : passage = some q := by
  have hhead : (placedFrom passage text).head? = some (c, .inside q) := by rw [h]; rfl
  obtain hplace | ⟨q', hplace⟩ := place_of_head? hhead
  · exact Place.of_eq_inside_iff.1 hplace.symm
  · contradiction

/-- The next character is the same, or it and the one that was there are inside of a string
literal or a block comment, and neither of them is a break. -/
theorem Rephrases.head?_cases (h : Rephrases (placedFrom passage text) other) :
    other.head? = text.head? ∨
      ∃ c d, text.head? = some c ∧ other.head? = some d ∧
        isLineBreak c = false ∧ isLineBreak d = false ∧
          (passage = some .string ∨ passage = some .blockComment ∧ d ∉ ['*', '/']) := by
  rw [← head?_placedFrom passage text]
  generalize hm : placedFrom passage text = m at h
  cases h with
  | nil => exact .inl rfl
  | kept c place h => exact .inl rfl
  | inString c d hc hd hquote h =>
    exact .inr ⟨c, d, rfl, rfl, hc, hd, .inl (passage_of_placedFrom_eq hm)⟩
  | inBlockComment c d hc hd hold hnew h =>
    exact .inr ⟨c, d, rfl, rfl, hc, hd, .inr ⟨passage_of_placedFrom_eq hm, hnew⟩⟩
  | inLineComment old new hold hnew h => exact .inl rfl

/-- Outside of string literals no `/` and no `*` comes next that did not before. -/
theorem Rephrases.head?_of_mark (h : Rephrases (placedFrom passage text) other)
    (hp : passage ≠ some .string) {d : Char} (hd : d = '/' ∨ d = '*')
    (hother : other.head? = some d) : text.head? = some d := by
  obtain hsame | ⟨c, d', -, hd', -, -, hstring | ⟨-, hmark⟩⟩ := h.head?_cases
  · rw [← hsame, hother]
  · contradiction
  · obtain rfl : d' = d := Option.some.inj (hd'.symm.trans hother)
    obtain rfl | rfl := hd <;> simp at hmark

/-- An LF comes next exactly if it did before. -/
theorem Rephrases.head?_eq_lf_iff (h : Rephrases (placedFrom passage text) other) :
    other.head? = some '\n' ↔ text.head? = some '\n' := by
  obtain hsame | ⟨c, d, hc', hd', hc, hd, -⟩ := h.head?_cases
  · rw [hsame]
  · rw [hc', hd']
    constructor <;> rintro ⟨⟩ <;> contradiction

/-! ## One character after another -/

/-- Inside of line comments nothing is left but breaks. -/
theorem cleanPlaced_lineComment {cs : List Char} (hcs : ∀ c ∈ cs, isLineBreak c = false)
    (text : List Char) :
    cleanPlaced (placedFrom (some .lineComment) (cs ++ text)) =
      cleanPlaced (placedFrom (some .lineComment) text) := by
  induction cs with
  | nil => rfl
  | cons c cs ih =>
    have hc := hcs c (List.mem_cons_self ..)
    have hplain : IsPlain (some .lineComment) c (cs ++ text).head? := trivial
    have hnone : remains (c, .of (some .lineComment)) = [] := by simp [remains, Place.of]
    rw [List.cons_append, placedFrom_of_isPlain hplain, cleanPlaced_cons hc, hnone,
      if_neg (by simp [hc]), ih fun d hd => hcs d (List.mem_cons_of_mem _ hd)]
    exact congrFun List.modifyHead_id _

theorem remains_inside {q : Passage} (hq : q ≠ .lineComment) (hc : isLineBreak c = false) :
    remains (c, .inside q) = [' '] := by
  have hkeep : ¬ (c = '\n' ∨ c = '\r') := by
    rintro (rfl | rfl) <;> contradiction
  unfold remains
  rw [if_neg hkeep]
  cases q with
  | string | blockComment => rfl
  | lineComment => contradiction

/-- A character that opens and closes nothing stands for one that opens and closes nothing
and leaves the same, and what follows rephrases what followed. -/
theorem Rephrases.of_plain {next : Option Passage} (hplain : IsPlain passage c text.head?)
    (hnext : isLineBreak c = false → next = passage)
    (h : Rephrases ((c, .of passage) :: placedFrom next text) other) :
    ∃ d more, other = d :: more ∧ Rephrases (placedFrom next text) more ∧
      IsPlain passage d more.head? ∧ (d = c ∨ isLineBreak c = false ∧ isLineBreak d = false ∧
        remains (d, .of passage) = remains (c, .of passage)) := by
  generalize hm : placedFrom next text = m at h
  generalize hplace : Place.of passage = place at h
  cases h with
  | kept c place h =>
    subst hm
    refine ⟨c, _, rfl, h, ?_, .inl rfl⟩
    by_cases hc : isLineBreak c = true
    · exact isPlain_of_isLineBreak hc
    · obtain rfl := hnext (Bool.eq_false_iff.2 hc)
      by_cases hp : next = some .string
      · subst hp
        exact hplain
      · exact hplain.of_next? fun d hd => h.head?_of_mark hp hd
  | inString c d hc hd hquote h =>
    obtain rfl := Place.of_eq_inside_iff.1 hplace
    refine ⟨d, _, rfl, hm ▸ h, hquote, .inr ⟨hc, hd, ?_⟩⟩
    exact (remains_inside (by decide) hd).trans (remains_inside (by decide) hc).symm
  | inBlockComment c d hc hd hold hnew h =>
    obtain rfl := Place.of_eq_inside_iff.1 hplace
    refine ⟨d, _, rfl, hm ▸ h, fun hstar => ?_, .inr ⟨hc, hd, ?_⟩⟩
    · simp [hstar] at hnew
    · exact (remains_inside (by decide) hd).trans (remains_inside (by decide) hc).symm
  | inLineComment old new hold hnew h => cases passage <;> contradiction

/-- Behind `//` the other text goes on with a line comment of its own, and what follows its
line rephrases what followed. -/
theorem Rephrases.of_slashes
    (h : Rephrases (('/', .delimiter .lineComment) :: ('/', .delimiter .lineComment) ::
      placedFrom (some .lineComment) text) other) :
    ∃ old new more, other = '/' :: '/' :: (new ++ more) ∧
      (∀ c ∈ old, isLineBreak c = false) ∧ (∀ d ∈ new, isLineBreak d = false) ∧
        Rephrases (placedFrom (some .lineComment) text) (old ++ more) := by
  generalize hm : placedFrom (some .lineComment) text = m at h
  cases h with
  | kept c place h =>
    cases h with
    | kept c place h => exact ⟨[], [], _, rfl, nofun, nofun, h⟩
    | inLineComment old new hold hnew h =>
      -- No delimiter is read inside of a line comment.
      cases text with
      | nil => contradiction
      | cons c text =>
        have hplain : IsPlain (some .lineComment) c text.head? := trivial
        simp [placedFrom_of_isPlain hplain, Place.of] at hm
  | inLineComment old new hold hnew h =>
    refine ⟨old.map Prod.fst, new, _, rfl, ?_, hnew, ?_⟩
    · intro c hc
      obtain ⟨x, hx, rfl⟩ := List.mem_map.1 hc
      exact (hold x hx).1
    · clear hm hold
      induction old with
      | nil => exact h
      | cons x old ih => exact .kept x.1 x.2 ih

theorem cleanPlaced_congr {x : Char × Place} {rest rest' : List (Char × Place)}
    (hx : isLineBreak x.1 = false) (hrest : cleanPlaced rest = cleanPlaced rest') :
    cleanPlaced (x :: rest) = cleanPlaced (x :: rest') := by
  rw [cleanPlaced_cons hx, cleanPlaced_cons hx, hrest]

theorem endsLine_congr {next? next?' : Option Char}
    (h : next? = some '\n' ↔ next?' = some '\n') : endsLine c next? = endsLine c next?' := by
  have hlf : (next? == some '\n') = (next?' == some '\n') := by
    rw [Bool.eq_iff_iff, beq_iff_eq, beq_iff_eq, h]
  rw [endsLine, endsLine, hlf]

/-- A text that rephrases another leaves the same when it is cleaned. -/
theorem cleanPlaced_of_rephrases (h : Rephrases (placedFrom passage text) other) :
    cleanPlaced (placedFrom passage other) = cleanPlaced (placedFrom passage text) := by
  fun_induction placedFrom passage text generalizing other with
  | case1 passage =>
    cases h
    rfl
  | case2 rest ih =>
    cases h with
    | kept c place h => exact cleanPlaced_congr rfl (ih h)
  | case3 rest ih =>
    obtain ⟨old, new, more, rfl, hold, hnew, h⟩ := h.of_slashes
    refine cleanPlaced_congr rfl (cleanPlaced_congr rfl ?_)
    rw [cleanPlaced_lineComment hnew, ← cleanPlaced_lineComment hold more]
    exact ih h
  | case4 rest ih =>
    cases h with
    | kept c place h =>
      cases h with
      | kept c place h => exact cleanPlaced_congr rfl (cleanPlaced_congr rfl (ih h))
  | case5 rest ih =>
    cases h with
    | kept c place h => exact cleanPlaced_congr rfl (ih h)
  | case6 rest ih =>
    cases h with
    | kept c place h =>
      cases h with
      | kept c place h => exact cleanPlaced_congr rfl (cleanPlaced_congr rfl (ih h))
  | case7 passage c rest h₁ h₂ h₃ h₄ h₅ ih =>
    have hplain := isPlain_of_forall h₁ h₂ h₃ h₄ h₅
    obtain ⟨d, more, rfl, h, hplain', hd⟩ := h.of_plain hplain (fun hc => by simp [hc])
    rw [placedFrom_of_isPlain hplain']
    obtain rfl | ⟨hc, hd, hsame⟩ := hd
    · rw [cleanPlaced, cleanPlaced, ih h, head?_placedFrom, head?_placedFrom]
      rw [endsLine_congr h.head?_eq_lf_iff]
    · simp only [hc, hd, Bool.false_eq_true, if_false] at ih h ⊢
      rw [cleanPlaced_cons hd, cleanPlaced_cons hc, hsame, ih h]

theorem cleanLines_of_rephrases (h : Rephrases (placed text) other) :
    cleanLines other = cleanLines text := by
  rw [cleanLines_eq, cleanLines_eq]
  exact cleanPlaced_of_rephrases h

/-- Only the cleaned lines of a text decide its structure. -/
theorem Structure.ofText_congr (h : cleanLines other = cleanLines text) :
    Structure.ofText other = Structure.ofText text := by
  simp only [Structure.ofText, codeTokens, markedLines, h]

end Script

open Script (Rephrases placed Structure)

/-- Whatever is put inside of string literals and comments, both analyzers find the same, for
any file and any prior analysis. -/
theorem analyzers_rephrase (request : Request) (other : List Char)
    (h : Rephrases (placed request.text.toList) other) :
    nameAnalyzer { request with text := String.ofList other } = nameAnalyzer request ∧
      structureAnalyzer { request with text := String.ofList other } =
        structureAnalyzer request := by
  have hsame : Structure.ofText other = Structure.ofText request.text.toList :=
    Structure.ofText_congr (Script.cleanLines_of_rephrases h)
  unfold nameAnalyzer structureAnalyzer
  simp only [String.toList_ofList, hsame, and_self]

/-- A quote in a comment, a `/*/` and the start of a comment in a string literal are rephrased, and
a line comment gets longer. -/
theorem analyzers_rephrase_traps :
    Rephrases (placed "begin/*/\n\"*/\"b\"//e\nend".toList)
        "begin/*/\nx*/\"/\"//\"/*\nend".toList ∧
      nameAnalyzer ⟨"begin/*/\nx*/\"/\"//\"/*\nend", some "a.ssl", .minimal, none⟩ =
        nameAnalyzer ⟨"begin/*/\n\"*/\"b\"//e\nend", some "a.ssl", .minimal, none⟩ ∧
      structureAnalyzer ⟨"begin/*/\nx*/\"/\"//\"/*\nend", some "a.ssl", .minimal, none⟩ =
        structureAnalyzer ⟨"begin/*/\n\"*/\"b\"//e\nend", some "a.ssl", .minimal, none⟩ := by
  have h : Rephrases (placed "begin/*/\n\"*/\"b\"//e\nend".toList)
      "begin/*/\nx*/\"/\"//\"/*\nend".toList := by
    refine .kept 'b' _ (.kept 'e' _ (.kept 'g' _ (.kept 'i' _ (.kept 'n' _ ?_))))
    refine .kept '/' _ (.kept '*' _ (.kept '/' _ (.kept '\n' _ ?_)))
    refine .inBlockComment '"' 'x' rfl rfl (by decide) (by decide) (.kept '*' _ (.kept '/' _ ?_))
    refine .kept '"' _ (.inString 'b' '/' rfl rfl (by decide) (.kept '"' _ ?_))
    refine .inLineComment [('e', .inside .lineComment)] ['"', '/', '*'] (by decide)
      (by simp [Text.isLineBreak]) ?_
    exact .kept '\n' _ (.kept 'e' _ (.kept 'n' _ (.kept 'd' _ .nil)))
  exact ⟨h, analyzers_rephrase
    ⟨"begin/*/\n\"*/\"b\"//e\nend", some "a.ssl", .minimal, none⟩ _ h⟩

end ScriptDesk
