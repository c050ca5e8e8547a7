import ScriptDesk.Proofs.Cleaning

/-!
# ScriptDesk.Proofs.Columns

Cleaning keeps every column (`cleaning_keeps_columns`). There is a cleaned line for each line, and
it says in each column what the line says there, or nothing; it may only end sooner, where a line
comment is cut off. What is kept is told by the places of the characters, which are read from the
start of the text.

Read in this way, every line is of one shape (`Legible`): first the characters that stay in their
columns, kept or blanked, then a line comment, if there is one, and then the break.
-/

namespace ScriptDesk.Script

open Text (isLineBreak lines content consLine)

/-- The passage that a character belongs to. -/
def Place.passage? : Place → Option Passage
  | .code => none
  | .delimiter passage | .inside passage => some passage

@[simp] theorem Place.passage?_of (passage : Option Passage) : (of passage).passage? = passage := by
  cases passage <;> rfl

/-- The place of the character in a column of a line, both counted from 0. All lines in front of
that line are read first. -/
def placeAt? (text : List Char) (line column : Nat) : Option Place :=
  ((placed text)[((lines text).take line).flatten.length + column]?).map Prod.snd

/-- A line that was cleaned has kept its columns. The raw line is without the CR and LF at its end,
and `place?` tells the place of the character in each of its columns. -/
structure KeepsColumns (place? : Nat → Option Place) (raw cleaned : List Char) : Prop where
  length_le : cleaned.length ≤ raw.length
  /-- In each column stands what stood there, or a space. -/
  kept_or_blank : ∀ (i : Nat) (c : Char), cleaned[i]? = some c → raw[i]? = some c ∨ c = ' '
  /-- Nothing is cut off but a line comment, and all of that; -/
  cut_iff : ∀ i, i < raw.length →
    (cleaned.length ≤ i ↔ (place? i).bind Place.passage? = some .lineComment)
  /-- so the cut is right at the `//` that starts it. -/
  cut : cleaned.length < raw.length → ['/', '/'] <+: raw.drop cleaned.length ∧
    place? cleaned.length = some (.delimiter .lineComment)
  /-- What is no space is kept exactly if it is code. -/
  kept_iff : ∀ (i : Nat) (c : Char), raw[i]? = some c → c ≠ ' ' →
    (cleaned[i]? = some c ↔ place? i = some .code)

/-! ## The lines of placed characters -/

/-- The lines of a text whose characters have their places. -/
def placedLines : List (Char × Place) → List (List (Char × Place))
  | [] => [[]]
  | x :: rest =>
    if endsLine x.1 (rest.head?.map Prod.fst) then [x] :: placedLines rest
    else (placedLines rest).modifyHead (x :: ·)

theorem placedLines_cons {x : Char × Place} (hx : isLineBreak x.1 = false)
    (rest : List (Char × Place)) :
    placedLines (x :: rest) = (placedLines rest).modifyHead (x :: ·) := by
  rw [placedLines, endsLine, hx, Bool.false_and]
  rfl

theorem lines_cons_eq (c : Char) (text : List Char) :
    lines (c :: text) =
      if endsLine c text.head? then [c] :: lines text else (lines text).modifyHead (c :: ·) := by
  obtain ⟨line, rest, hlines⟩ := List.exists_cons_of_ne_nil (Text.lines_ne_nil text)
  rw [Text.lines_cons, hlines, consLine, head?_of_lines_eq hlines, endsLine]
  rfl

theorem map_fst_placedLines (xs : List (Char × Place)) :
    (placedLines xs).map (·.map Prod.fst) = lines (xs.map Prod.fst) := by
  induction xs with
  | nil => rfl
  | cons x rest ih =>
    rw [List.map_cons, lines_cons_eq, ← ih, placedLines, List.head?_map]
    split
    · rfl
    · cases placedLines rest <;> rfl

theorem flatten_placedLines (xs : List (Char × Place)) : (placedLines xs).flatten = xs := by
  induction xs with
  | nil => rfl
  | cons x rest ih =>
    have hne : placedLines rest ≠ [] := fun hnil => by
      have hlines := map_fst_placedLines rest
      rw [hnil] at hlines
      exact Text.lines_ne_nil _ hlines.symm
    obtain ⟨line, more, hrest⟩ := List.exists_cons_of_ne_nil hne
    rw [hrest] at ih
    rw [placedLines, hrest]
    split
    · exact congrArg (x :: ·) ih
    · exact congrArg (x :: ·) ih

theorem cleanPlaced_eq (xs : List (Char × Place)) :
    cleanPlaced xs = (placedLines xs).map (·.flatMap remains) := by
  induction xs with
  | nil => rfl
  | cons x rest ih =>
    rw [cleanPlaced, placedLines, ih]
    split
    · simp
    · cases placedLines rest <;> rfl

/-- An entry of a piece, found in the pieces put end to end. -/
theorem getElem?_flatten_take {α : Type} {pieces : List (List α)} {n : Nat} {piece : List α}
    (h : pieces[n]? = some piece) {i : Nat} (hi : i < piece.length) :
    pieces.flatten[(pieces.take n).flatten.length + i]? = piece[i]? := by
  induction pieces generalizing n with
  | nil => simp at h
  | cons first rest ih =>
    cases n with
    | zero =>
      obtain rfl : first = piece := by simpa using h
      simp [List.getElem?_append_left hi]
    | succ n =>
      have hrest : rest[n]? = some piece := by simpa using h
      rw [List.take_succ_cons, List.flatten_cons, List.flatten_cons, List.length_append,
        Nat.add_assoc, List.getElem?_append_right (Nat.le_add_right _ _), Nat.add_sub_cancel_left]
      exact ih hrest

theorem lines_eq_map_placedLines (text : List Char) :
    lines text = (placedLines (placed text)).map (·.map Prod.fst) := by
  rw [map_fst_placedLines, placed, map_fst_placedFrom]

theorem placeAt?_eq {text : List Char} {n : Nat} {read : List (Char × Place)}
    (h : (placedLines (placed text))[n]? = some read) {i : Nat} (hi : i < read.length) :
    placeAt? text n i = read[i]?.map Prod.snd := by
  have hfront : ((lines text).take n).flatten.length =
      ((placedLines (placed text)).take n).flatten.length := by
    rw [lines_eq_map_placedLines, ← List.map_take, ← List.map_flatten, List.length_map]
  rw [placeAt?, hfront, ← getElem?_flatten_take h hi, flatten_placedLines]

/-! ## The shape of a line -/

/-- The rest of a line in a line comment. -/
def InComment (line : List (Char × Place)) : Prop :=
  ∃ comment ending, line = comment ++ ending ∧ (∀ x ∈ comment, x.2 = .inside .lineComment) ∧
    ∀ x ∈ ending, x.1 = '\n' ∨ x.1 = '\r'

/-- A line as it is read: what stays in its column, then a line comment, if there is one, then the
break. -/
inductive Legible : List (Char × Place) → Prop where
  | ended {ending} : (∀ x ∈ ending, x.1 = '\n' ∨ x.1 = '\r') → Legible ending
  | stays {line} (x : Char × Place) : ¬ (x.1 = '\n' ∨ x.1 = '\r') →
    x.2.passage? ≠ some .lineComment → Legible line → Legible (x :: line)
  | cut {line} : InComment line →
    Legible (('/', .delimiter .lineComment) :: ('/', .delimiter .lineComment) :: line)

theorem Legible.delimiter {line : List (Char × Place)} {c : Char} {passage : Passage}
    (h : Legible line) (hc : ¬ (c = '\n' ∨ c = '\r')) (hpassage : passage ≠ .lineComment) :
    Legible ((c, .delimiter passage) :: line) :=
  .stays _ hc (fun hp => hpassage (Option.some.inj hp)) h

/-- The rest of a line that starts in a passage, if one is open. -/
def ReadFrom (passage : Option Passage) (line : List (Char × Place)) : Prop :=
  if passage = some .lineComment then InComment line else Legible line

namespace ReadFrom

variable {passage : Option Passage} {line : List (Char × Place)} {c : Char}

theorem of_ending (h : ∀ x ∈ line, x.1 = '\n' ∨ x.1 = '\r') : ReadFrom passage line := by
  unfold ReadFrom
  split
  · exact ⟨[], line, rfl, by simp, h⟩
  · exact .ended h

theorem nil : ReadFrom passage [] := of_ending (by simp)

theorem cons (h : ReadFrom passage line) (hc : ¬ (c = '\n' ∨ c = '\r')) :
    ReadFrom passage ((c, .of passage) :: line) := by
  unfold ReadFrom at h ⊢
  split at h
  · next hpassage =>
    obtain ⟨comment, ending, rfl, hcomment, hending⟩ := h
    subst hpassage
    exact ⟨(c, .inside .lineComment) :: comment, ending, rfl, by simpa [Place.of] using hcomment,
      hending⟩
  · next hpassage =>
    rw [if_neg hpassage]
    exact .stays (c, .of passage) hc (by rwa [Place.passage?_of]) h

end ReadFrom

/-- The lines of a text that starts in a passage, if one is open. -/
def AllLegible (passage : Option Passage) (table : List (List (Char × Place))) : Prop :=
  ∃ line rest, table = line :: rest ∧ ReadFrom passage line ∧ ∀ line ∈ rest, Legible line

theorem AllLegible.modifyHead {passage next : Option Passage} {table : List (List (Char × Place))}
    (h : AllLegible next table) {f : List (Char × Place) → List (Char × Place)}
    (hf : ∀ line, ReadFrom next line → ReadFrom passage (f line)) :
    AllLegible passage (table.modifyHead f) := by
  obtain ⟨line, rest, rfl, hline, hrest⟩ := h
  exact ⟨f line, rest, rfl, hf line hline, hrest⟩

/-- A line comment is over with its line. -/
theorem nextLine_ne_lineComment (passage : Option Passage) :
    Passage.nextLine passage ≠ some .lineComment := by
  cases passage with
  | none => nofun
  | some passage => cases passage <;> nofun

theorem AllLegible.cons {passage next : Option Passage} {table : List (List (Char × Place))}
    (h : AllLegible (Passage.nextLine next) table) {line : List (Char × Place)}
    (hline : ReadFrom passage line) : AllLegible passage (line :: table) := by
  obtain ⟨first, rest, rfl, hfirst, hrest⟩ := h
  rw [ReadFrom, if_neg (nextLine_ne_lineComment next)] at hfirst
  exact ⟨line, first :: rest, rfl, hline, List.forall_mem_cons.2 ⟨hfirst, hrest⟩⟩

/-- An LF ends its line at once. -/
theorem exists_placedLines_lf (passage : Option Passage) (text : List Char) :
    ∃ rest, placedLines (placedFrom passage ('\n' :: text)) = [('\n', .of passage)] :: rest := by
  rw [placedFrom_of_isPlain (isPlain_of_isLineBreak rfl)]
  exact ⟨_, rfl⟩

theorem allLegible_placedFrom (passage : Option Passage) (text : List Char) :
    AllLegible passage (placedLines (placedFrom passage text)) := by
  fun_induction placedFrom passage text with
  | case1 passage => exact ⟨[], [], rfl, .nil, by simp⟩
  | case2 rest ih =>
    rw [placedLines_cons rfl]
    exact ih.modifyHead fun line h => Legible.delimiter h (by decide) (by decide)
  | case3 rest ih =>
    rw [placedLines_cons rfl, placedLines_cons rfl, List.modifyHead_modifyHead]
    exact ih.modifyHead fun line h => Legible.cut h
  | case4 rest ih =>
    rw [placedLines_cons rfl, placedLines_cons rfl, List.modifyHead_modifyHead]
    refine ih.modifyHead fun line h => ?_
    exact Legible.delimiter (.delimiter h (by decide) (by decide)) (by decide) (by decide)
  | case5 rest ih =>
    rw [placedLines_cons rfl]
    exact ih.modifyHead fun line h => Legible.delimiter h (by decide) (by decide)
  | case6 rest ih =>
    rw [placedLines_cons rfl, placedLines_cons rfl, List.modifyHead_modifyHead]
    refine ih.modifyHead fun line h => ?_
    exact Legible.delimiter (.delimiter h (by decide) (by decide)) (by decide) (by decide)
  | case7 passage c rest h₁ h₂ h₃ h₄ h₅ ih =>
    by_cases hc : isLineBreak c = true
    · rw [if_pos hc] at ih ⊢
      rw [placedLines, head?_placedFrom]
      split
      · refine ih.cons ?_
        by_cases hcut : c = '\n' ∨ c = '\r'
        · exact .of_ending (by simpa using hcut)
        · exact ReadFrom.nil.cons hcut
      · next hstays =>
        -- The CR of a CR LF: what is left of its line is the LF.
        obtain ⟨rfl, hlf⟩ : c = '\r' ∧ rest.head? = some '\n' := by
          simpa [endsLine, hc] using hstays
        obtain ⟨text, rfl⟩ := List.head?_eq_some_iff.1 hlf
        obtain ⟨more, hmore⟩ := exists_placedLines_lf (Passage.nextLine passage) text
        rw [hmore] at ih ⊢
        obtain ⟨line, rest, heq, -, hrest⟩ := ih
        obtain ⟨-, rfl⟩ := List.cons.inj heq
        exact ⟨_, _, rfl, .of_ending (by simp), hrest⟩
    · have hc' := Bool.eq_false_iff.2 hc
      rw [if_neg hc] at ih ⊢
      rw [placedLines_cons hc']
      refine ih.modifyHead fun line h => h.cons ?_
      rintro (rfl | rfl) <;> exact hc rfl

theorem legible_of_mem {text : List Char} {line : List (Char × Place)}
    (h : line ∈ placedLines (placed text)) : Legible line := by
  obtain ⟨first, rest, heq, hfirst, hrest⟩ := allLegible_placedFrom none text
  rw [placed, heq] at h
  rcases List.mem_cons.1 h with rfl | h
  · exact hfirst
  · exact hrest line h

/-! ## What is left of a line -/

theorem content_append_ending {ending : List Char} (h : ∀ c ∈ ending, c = '\n' ∨ c = '\r')
    (line : List Char) : content (line ++ ending) = content line := by
  unfold content
  rw [List.reverse_append, List.dropWhile_append_of_pos]
  intro c hc
  simpa using h c (List.mem_reverse.1 hc)

theorem length_content_le (line : List Char) : (content line).length ≤ line.length :=
  (List.rdropWhile_prefix _ line).length_le

namespace KeepsColumns

variable {place? : Nat → Option Place} {raw cleaned : List Char}

theorem nil : KeepsColumns place? [] [] := by
  constructor <;> simp

theorem cons {c d : Char} (h : KeepsColumns (fun i => place? (i + 1)) raw cleaned)
    (hd : d = c ∨ d = ' ') (hplace : (place? 0).bind Place.passage? ≠ some .lineComment)
    (hkept : c ≠ ' ' → (d = c ↔ place? 0 = some .code)) :
    KeepsColumns place? (c :: raw) (d :: cleaned) where
  length_le := Nat.succ_le_succ h.length_le
  kept_or_blank i x hx := by
    cases i with
    | zero =>
      obtain rfl : d = x := Option.some.inj hx
      exact hd.imp_left fun heq => congrArg some heq.symm
    | succ i => exact h.kept_or_blank i x hx
  cut_iff i hi := by
    cases i with
    | zero => simpa using hplace
    | succ i =>
      rw [List.length_cons, Nat.succ_le_succ_iff]
      exact h.cut_iff i (Nat.lt_of_succ_lt_succ hi)
  cut hlt := h.cut (Nat.lt_of_succ_lt_succ hlt)
  kept_iff i x hx hne := by
    cases i with
    | zero =>
      obtain rfl : c = x := Option.some.inj hx
      simpa using hkept hne
    | succ i => exact h.kept_iff i x hx hne

/-- Of a line comment nothing is left. -/
theorem of_comment (hstart : ['/', '/'] <+: raw) (hcut : place? 0 = some (.delimiter .lineComment))
    (hall : ∀ i, i < raw.length → (place? i).bind Place.passage? = some .lineComment) :
    KeepsColumns place? raw [] where
  length_le := Nat.zero_le _
  kept_or_blank i x hx := by simp at hx
  cut_iff i hi := by simp [hall i hi]
  cut _ := ⟨hstart, hcut⟩
  kept_iff i x hx _ := by
    have hplace := hall i (List.getElem?_eq_some_iff.1 hx).1
    constructor
    · intro h
      simp at h
    · intro h
      simp [h, Place.passage?] at hplace

theorem congr {place'? : Nat → Option Place} (h : KeepsColumns place? raw cleaned)
    (heq : ∀ i, i < raw.length → place'? i = place? i) : KeepsColumns place'? raw cleaned where
  length_le := h.length_le
  kept_or_blank := h.kept_or_blank
  cut_iff i hi := by
    rw [heq i hi]
    exact h.cut_iff i hi
  cut hlt := by
    rw [heq _ hlt]
    exact h.cut hlt
  kept_iff i c hc hne := by
    rw [heq i (List.getElem?_eq_some_iff.1 hc).1]
    exact h.kept_iff i c hc hne

end KeepsColumns

/-- What is blanked leaves a space, and code leaves itself. -/
theorem exists_remains {x : Char × Place} (hchar : ¬ (x.1 = '\n' ∨ x.1 = '\r'))
    (hplace : x.2.passage? ≠ some .lineComment) :
    ∃ d, remains x = [d] ∧ (d = x.1 ∨ d = ' ') ∧ (x.1 ≠ ' ' → (d = x.1 ↔ x.2 = .code)) := by
  obtain ⟨c, place⟩ := x
  unfold remains
  rw [if_neg hchar]
  cases place with
  | code => exact ⟨c, rfl, .inl rfl, by simp⟩
  | delimiter passage =>
    cases passage with
    | lineComment => exact absurd rfl hplace
    | _ => exact ⟨' ', rfl, .inr rfl, fun hne => by simpa using hne.symm⟩
  | inside passage =>
    cases passage with
    | lineComment => exact absurd rfl hplace
    | _ => exact ⟨' ', rfl, .inr rfl, fun hne => by simpa using hne.symm⟩

theorem flatMap_remains_of_ending {line : List (Char × Place)}
    (h : ∀ x ∈ line, x.1 = '\n' ∨ x.1 = '\r') : line.flatMap remains = [] :=
  List.flatMap_eq_nil_iff.2 fun x hx => if_pos (h x hx)

theorem InComment.flatMap_remains {line : List (Char × Place)} (h : InComment line) :
    line.flatMap remains = [] := by
  obtain ⟨comment, ending, rfl, hcomment, hending⟩ := h
  rw [List.flatMap_append, flatMap_remains_of_ending hending, List.append_nil]
  refine List.flatMap_eq_nil_iff.2 fun x hx => ?_
  simp [remains, hcomment x hx]

/-- Up to its break the line is inside of the comment. -/
theorem InComment.place_of_lt {read : List (Char × Place)} (h : InComment read) {i : Nat}
    (hi : i < (content (read.map Prod.fst)).length) :
    read[i]?.map Prod.snd = some (.inside .lineComment) := by
  obtain ⟨comment, ending, rfl, hcomment, hending⟩ := h
  rw [List.map_append, content_append_ending (by simpa using hending)] at hi
  have hlt : i < comment.length := by
    simpa using Nat.lt_of_lt_of_le hi (length_content_le (comment.map Prod.fst))
  rw [List.getElem?_append_left hlt, List.getElem?_eq_getElem hlt]
  exact congrArg some (hcomment _ (List.getElem_mem hlt))

theorem Legible.keepsColumns {read : List (Char × Place)} (h : Legible read) :
    KeepsColumns (fun i => read[i]?.map Prod.snd) (content (read.map Prod.fst))
      (read.flatMap remains) := by
  induction h with
  | @ended ending hending =>
    have hcontent : content (ending.map Prod.fst) = [] :=
      content_append_ending (by simpa using hending) []
    rw [hcontent, flatMap_remains_of_ending hending]
    exact .nil
  | @stays line x hchar hplace _ ih =>
    obtain ⟨d, hd, hblank, hkept⟩ := exists_remains hchar hplace
    rw [List.map_cons, content_cons_of_not hchar, List.flatMap_cons, hd]
    exact ih.cons hblank (by simpa using hplace) (by simpa using hkept)
  | @cut line hcomment =>
    rw [List.map_cons, List.map_cons, content_cons_of_not (by decide),
      content_cons_of_not (by decide), List.flatMap_cons, List.flatMap_cons,
      hcomment.flatMap_remains]
    refine .of_comment ⟨_, rfl⟩ rfl fun i hi => ?_
    match i with
    | 0 | 1 => rfl
    | i + 2 =>
      have hplace := hcomment.place_of_lt (Nat.lt_of_succ_lt_succ (Nat.lt_of_succ_lt_succ hi))
      exact congrArg (Option.bind · Place.passage?) hplace

/-- Every text is cleaned line by line, and every line keeps its columns. -/
theorem cleaning_keeps_columns (text : List Char) :
    (cleanLines text).length = (lines text).length ∧
      ∀ n line cleaned, (lines text)[n]? = some line → (cleanLines text)[n]? = some cleaned →
        KeepsColumns (placeAt? text n) (content line) cleaned := by
  refine ⟨length_cleanLines text, fun n line cleaned hline hcleaned => ?_⟩
  rw [lines_eq_map_placedLines, List.getElem?_map, Option.map_eq_some_iff] at hline
  obtain ⟨read, hread, rfl⟩ := hline
  rw [cleanLines_eq, cleanPlaced_eq, List.getElem?_map, hread] at hcleaned
  obtain rfl : read.flatMap remains = cleaned := Option.some.inj hcleaned
  refine (legible_of_mem (List.mem_of_getElem? hread)).keepsColumns.congr fun i hi => ?_
  refine placeAt?_eq hread (Nat.lt_of_lt_of_le hi ?_)
  simpa using length_content_le (read.map Prod.fst)

/-- There is a `//` in a string, and a block comment goes on behind the end of its line. -/
def commentedLines : List Char := "s(\"//\") /* d\r\n*/ end // e".toList

theorem cleaning_keeps_columns_across_lines :
    (cleanLines commentedLines)[0]? = some "s(    )     ".toList ∧
      (lines commentedLines)[1]? = some "*/ end // e".toList ∧
      (cleanLines commentedLines)[1]? = some "   end ".toList ∧
      KeepsColumns (placeAt? commentedLines 1) (content "*/ end // e".toList)
        "   end ".toList := by
  have hline : (lines commentedLines)[1]? = some "*/ end // e".toList := by decide +kernel
  have hcleaned : (cleanLines commentedLines)[1]? = some "   end ".toList := by decide +kernel
  exact ⟨by decide +kernel, hline, hcleaned, (cleaning_keeps_columns _).2 _ _ _ hline hcleaned⟩

end ScriptDesk.Script
