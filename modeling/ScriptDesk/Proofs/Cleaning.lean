import Mathlib.Data.List.DropRight
import ScriptDesk.Script.Blanking
import ScriptDesk.Script.Passage

/-!
# ScriptDesk.Proofs.Cleaning

What cleaning leaves of a text is told by the places of its characters (`cleanLines_eq`): code
stays, string literals and block comments leave blanks, and line comments leave nothing. So a
line is cleaned without looking at it again, once it is known what each character is there for.

The proof follows the reading of the text. What is in front of it at each point is the rest of a
line, in which a passage may be open, and whole lines behind that.
-/

namespace ScriptDesk.Script

open Text (isLineBreak lines content consLine)

variable {c : Char} {text : List Char} {passage next : Option Passage}

/-! ## Lines of a text, character by character -/

/-- The lines of a text without the breaks that end them. -/
def contents (text : List Char) : List (List Char) := (lines text).map content

/-- The character ends a line, given the one that follows it. -/
def endsLine (c : Char) (next? : Option Char) : Bool :=
  isLineBreak c && !(c == '\r' && next? == some '\n')

theorem exists_contents (text : List Char) : ∃ line rest, contents text = line :: rest :=
  List.exists_cons_of_ne_nil (by simp [contents, Text.lines_ne_nil])

theorem exists_lines_cons (c : Char) (text : List Char) :
    ∃ line rest, lines (c :: text) = (c :: line) :: rest := by
  obtain ⟨line, rest, hlines⟩ := List.exists_cons_of_ne_nil (Text.lines_ne_nil text)
  rw [Text.lines_cons, hlines, consLine]
  split
  · exact ⟨_, _, rfl⟩
  · exact ⟨_, _, rfl⟩

theorem head?_of_lines_eq {line : List Char} {rest : List (List Char)}
    (h : lines text = line :: rest) : line.head? = text.head? := by
  cases text with
  | nil =>
    obtain rfl : [] = line := (List.cons.inj h).1
    rfl
  | cons c text =>
    obtain ⟨line', rest', hlines⟩ := exists_lines_cons c text
    obtain rfl : c :: line' = line := (List.cons.inj (hlines.symm.trans h)).1
    rfl

/-- Only CR and LF are taken off the end of a line. -/
theorem content_cons_of_not (hc : ¬ (c = '\n' ∨ c = '\r')) (line : List Char) :
    content (c :: line) = c :: content line := by
  have hkeep : (c == '\n' || c == '\r') = false := by simpa using hc
  unfold content
  rw [List.reverse_cons, List.dropWhile_append]
  split
  · next hempty =>
    rw [List.isEmpty_iff.1 hempty]
    simp [hkeep]
  · simp

theorem content_cons (hc : isLineBreak c = false) (line : List Char) :
    content (c :: line) = c :: content line := by
  refine content_cons_of_not ?_ line
  rintro (rfl | rfl) <;> contradiction

/-- A character that is no break is in front of the first line. -/
theorem contents_cons (hc : isLineBreak c = false) {line : List Char} {rest : List (List Char)}
    (h : contents text = line :: rest) : contents (c :: text) = (c :: line) :: rest := by
  obtain ⟨line', rest', hlines⟩ := List.exists_cons_of_ne_nil (Text.lines_ne_nil text)
  rw [contents, hlines, List.map_cons, List.cons.injEq] at h
  obtain ⟨rfl, rfl⟩ := h
  rw [contents, Text.lines_cons, hlines, consLine, hc, Bool.false_and]
  simp [content_cons hc]

theorem contents_append {cs line : List Char} {rest : List (List Char)}
    (hcs : ∀ c ∈ cs, isLineBreak c = false) (h : contents text = line :: rest) :
    contents (cs ++ text) = (cs ++ line) :: rest := by
  induction cs with
  | nil => exact h
  | cons c cs ih =>
    exact contents_cons (hcs c (List.mem_cons_self ..))
      (ih fun d hd => hcs d (List.mem_cons_of_mem _ hd))

/-- A break that ends a line is a line of its own. -/
theorem contents_of_endsLine (hc : endsLine c text.head? = true) :
    contents (c :: text) = content [c] :: contents text := by
  obtain ⟨line, rest, hlines⟩ := List.exists_cons_of_ne_nil (Text.lines_ne_nil text)
  rw [← head?_of_lines_eq hlines] at hc
  rw [contents, Text.lines_cons, hlines, consLine, ← endsLine, if_pos hc, contents, hlines]
  rfl

/-- A CR in front of an LF makes no difference. -/
theorem contents_cr_lf (text : List Char) :
    contents ('\r' :: '\n' :: text) = contents ('\n' :: text) := by
  have hlf : lines ('\n' :: text) = ['\n'] :: lines text := by
    obtain ⟨line, rest, hlines⟩ := List.exists_cons_of_ne_nil (Text.lines_ne_nil text)
    rw [Text.lines_cons, hlines]
    rfl
  rw [contents, Text.lines_cons, hlf, contents, hlf]
  rfl

/-- What a first line starts with, the text starts with. -/
theorem head?_of_contents_eq {line : List Char} {rest : List (List Char)} {d : Char}
    (h : contents text = line :: rest) (hd : line.head? = some d) : text.head? = some d := by
  obtain ⟨line', rest', hlines⟩ := List.exists_cons_of_ne_nil (Text.lines_ne_nil text)
  rw [contents, hlines, List.map_cons, List.cons.injEq] at h
  obtain ⟨rfl, -⟩ := h
  rw [← head?_of_lines_eq hlines]
  obtain ⟨cut, hcut⟩ : content line' <+: line' := List.rdropWhile_prefix _ line'
  rw [← hcut, List.head?_append, hd, Option.some_or]

/-! ## Blanking a line in the middle of a passage -/

/-- Blanks the rest of a line that starts in a passage, if one is open. -/
def blankWithin : (passage : Option Passage) → List Char → List Char × Region
  | none, line => blankFrom .code line
  | some .string, line => blankFrom .quoted line
  | some .blockComment, line => blankFrom .comment line
  | some .lineComment, _ => ([], .code)

@[simp] theorem blankWithin_nil_fst (passage : Option Passage) :
    (blankWithin passage []).1 = [] := by
  cases passage with
  | none => rfl
  | some passage => cases passage <;> rfl

/-- The lines of a text that starts in a passage, cleaned. -/
def cleanedFrom (passage : Option Passage) (text : List Char) : List (List Char) :=
  match contents text with
  | [] => []
  | line :: rest =>
    (blankWithin passage line).1 :: blankLines (blankWithin passage line).2.atLineStart rest

theorem cleanedFrom_none (text : List Char) : cleanedFrom none text = cleanLines text := by
  obtain ⟨line, rest, hline⟩ := exists_contents text
  rw [cleanedFrom, cleanLines, ← contents, hline]
  rfl

/-- What cleaning leaves of a character. CR and LF go with the end of their line. -/
def remains (x : Char × Place) : List Char :=
  if x.1 = '\n' ∨ x.1 = '\r' then []
  else
    match x.2 with
    | .code => [x.1]
    | .delimiter .lineComment | .inside .lineComment => []
    | .delimiter _ | .inside _ => [' ']

/-- What cleaning leaves of the lines of a text. -/
def cleanPlaced : List (Char × Place) → List (List Char)
  | [] => [[]]
  | x :: rest =>
    if endsLine x.1 (rest.head?.map Prod.fst) then remains x :: cleanPlaced rest
    else (cleanPlaced rest).modifyHead (remains x ++ ·)

theorem cleanPlaced_cons {x : Char × Place} (hx : isLineBreak x.1 = false)
    (rest : List (Char × Place)) :
    cleanPlaced (x :: rest) = (cleanPlaced rest).modifyHead (remains x ++ ·) := by
  rw [cleanPlaced, endsLine, hx, Bool.false_and]
  rfl

/-- A first line that is blanked to `left` and what else is blanked of it. -/
theorem cleanedFrom_append (cs left : List Char) (hcs : ∀ c ∈ cs, isLineBreak c = false)
    (hblank : ∀ line : List Char, (∀ d, line.head? = some d → text.head? = some d) →
      blankWithin passage (cs ++ line) =
        (left ++ (blankWithin next line).1, (blankWithin next line).2)) :
    cleanedFrom passage (cs ++ text) = (cleanedFrom next text).modifyHead (left ++ ·) := by
  obtain ⟨line, rest, hline⟩ := exists_contents text
  unfold cleanedFrom
  rw [contents_append hcs hline, hline]
  dsimp only
  rw [hblank line fun d => head?_of_contents_eq hline]
  rfl

theorem blankWithin_of_isPlain {line : List Char} (h : IsPlain passage c line.head?)
    (hc : ¬ (c = '\n' ∨ c = '\r')) :
    blankWithin passage (c :: line) =
      (remains (c, .of passage) ++ (blankWithin passage line).1, (blankWithin passage line).2) := by
  unfold remains
  rw [if_neg hc]
  cases passage with
  | none =>
    simp only [blankWithin, Place.of]
    rw [blankFrom]
    · rfl
    · rintro rfl
      exact h.1 rfl
    · rintro more rfl rfl
      exact (h.2 rfl).1 rfl
    · rintro more rfl rfl
      exact (h.2 rfl).2 rfl
  | some passage =>
    cases passage with
    | string =>
      simp only [blankWithin, Place.of]
      rw [blankFrom]
      · rfl
      · exact h
    | blockComment =>
      simp only [blankWithin, Place.of]
      rw [blankFrom]
      · rfl
      · rintro more rfl rfl
        exact h rfl rfl
    | lineComment => rfl

theorem blankLines_contents (passage : Option Passage) (text : List Char) :
    blankLines (blankWithin passage []).2.atLineStart (contents text) =
      cleanedFrom (Passage.nextLine passage) text := by
  obtain ⟨line, rest, hline⟩ := exists_contents text
  unfold cleanedFrom
  rw [hline]
  cases passage with
  | none => rfl
  | some passage => cases passage <;> rfl

theorem content_singleton (c : Char) : content [c] = if c = '\n' ∨ c = '\r' then [] else [c] := by
  unfold content
  by_cases hc : c = '\n' ∨ c = '\r'
  · have hcut : (c == '\n' || c == '\r') = true := by simpa using hc
    simp [hc, hcut]
  · have hkeep : (c == '\n' || c == '\r') = false := by simpa using hc
    simp [hc, hkeep]

/-- A break that ends a line leaves a line, and what follows starts on the next one. -/
theorem cleanedFrom_of_endsLine (passage : Option Passage) (hc : endsLine c text.head? = true) :
    cleanedFrom passage (c :: text) =
      remains (c, .of passage) :: cleanedFrom (Passage.nextLine passage) text := by
  have hbreak : isLineBreak c = true := (Bool.and_eq_true_iff.1 hc).1
  have hfirst : (blankWithin passage (content [c])).1 = remains (c, .of passage) ∧
      (blankWithin passage (content [c])).2 = (blankWithin passage []).2 := by
    rw [content_singleton]
    split
    · next hcut => exact ⟨(blankWithin_nil_fst passage).trans (if_pos hcut).symm, rfl⟩
    · next hkeep =>
      rw [blankWithin_of_isPlain (isPlain_of_isLineBreak hbreak) hkeep, blankWithin_nil_fst,
        List.append_nil]
      exact ⟨rfl, rfl⟩
  rw [← blankLines_contents, ← hfirst.1, ← hfirst.2, cleanedFrom, contents_of_endsLine hc]

/-- A CR in front of an LF leaves the line to the LF. -/
theorem cleanedFrom_of_not_endsLine (passage : Option Passage) (hc : isLineBreak c = true)
    (hstays : endsLine c text.head? = false) :
    cleanedFrom passage (c :: text) = cleanedFrom (Passage.nextLine passage) text ∧
      remains (c, .of passage) = [] := by
  obtain ⟨rfl, hlf⟩ : c = '\r' ∧ text.head? = some '\n' := by
    simpa [endsLine, hc] using hstays
  obtain ⟨text, rfl⟩ := List.head?_eq_some_iff.1 hlf
  have hends : endsLine '\n' text.head? = true := rfl
  refine ⟨?_, rfl⟩
  calc cleanedFrom passage ('\r' :: '\n' :: text)
    _ = cleanedFrom passage ('\n' :: text) := by rw [cleanedFrom, contents_cr_lf, cleanedFrom]
    _ = [] :: cleanedFrom (Passage.nextLine passage) text := cleanedFrom_of_endsLine passage hends
    _ = cleanedFrom (Passage.nextLine passage) ('\n' :: text) := by
      rw [cleanedFrom_of_endsLine _ hends, Passage.nextLine_nextLine]
      rfl

theorem head?_placedFrom (passage : Option Passage) (text : List Char) :
    (placedFrom passage text).head?.map Prod.fst = text.head? := by
  rw [← List.head?_map, map_fst_placedFrom]

theorem cleanedFrom_eq (passage : Option Passage) (text : List Char) :
    cleanedFrom passage text = cleanPlaced (placedFrom passage text) := by
  fun_induction placedFrom passage text with
  | case1 passage => exact congrArg (· :: []) (blankWithin_nil_fst passage)
  | case2 rest ih =>
    rw [cleanPlaced_cons rfl, ← ih]
    exact cleanedFrom_append ['"'] [' '] (by simp [isLineBreak]) fun line _ => rfl
  | case3 rest ih =>
    rw [cleanPlaced_cons rfl, cleanPlaced_cons rfl, ← ih, List.modifyHead_modifyHead]
    exact cleanedFrom_append ['/', '/'] [] (by simp [isLineBreak]) fun line _ => rfl
  | case4 rest ih =>
    rw [cleanPlaced_cons rfl, cleanPlaced_cons rfl, ← ih, List.modifyHead_modifyHead]
    exact cleanedFrom_append ['/', '*'] [' ', ' '] (by simp [isLineBreak]) fun line _ => rfl
  | case5 rest ih =>
    rw [cleanPlaced_cons rfl, ← ih]
    exact cleanedFrom_append ['"'] [' '] (by simp [isLineBreak]) fun line _ => rfl
  | case6 rest ih =>
    rw [cleanPlaced_cons rfl, cleanPlaced_cons rfl, ← ih, List.modifyHead_modifyHead]
    exact cleanedFrom_append ['*', '/'] [' ', ' '] (by simp [isLineBreak]) fun line _ => rfl
  | case7 passage c rest h₁ h₂ h₃ h₄ h₅ ih =>
    have hplain := isPlain_of_forall h₁ h₂ h₃ h₄ h₅
    by_cases hc : isLineBreak c = true
    · rw [if_pos hc] at ih ⊢
      rw [cleanPlaced, head?_placedFrom, ← ih]
      split
      · next hends => exact cleanedFrom_of_endsLine passage hends
      · next hstays =>
        obtain ⟨hnext, hnone⟩ :=
          cleanedFrom_of_not_endsLine passage hc (Bool.eq_false_iff.2 hstays)
        rw [hnext, hnone]
        exact (congrFun List.modifyHead_id _).symm
    · have hc' := Bool.eq_false_iff.2 hc
      rw [if_neg hc] at ih ⊢
      rw [cleanPlaced_cons hc', ← ih]
      refine cleanedFrom_append [c] _ (by simpa using hc') fun line hline => ?_
      refine blankWithin_of_isPlain (hplain.of_next? fun d _ => hline d) ?_
      rintro (rfl | rfl) <;> exact hc rfl

/-- Cleaning a text comes to the same as cleaning each character by its place. -/
theorem cleanLines_eq (text : List Char) : cleanLines text = cleanPlaced (placed text) :=
  (cleanedFrom_none text).symm.trans (cleanedFrom_eq none text)

end ScriptDesk.Script
