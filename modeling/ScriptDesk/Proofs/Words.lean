import ScriptDesk.Proofs.Reading

/-!
# ScriptDesk.Proofs.Words

The tokens of a script stand in the text as it was written. Structure is read from cleaned
lines, but cleaning makes up no tokens (`tokensFrom_blankFrom_subset`): each token of a cleaned
line is one of the line with its comments and string literals, in the same column. There it is a
word that nothing around it belongs to (`standsAt_of_mem_codeTokens`).
-/

namespace ScriptDesk.Script

variable {n column : Nat} {front word rest : List Char} {t : Token}

/-! ## Words in a line -/

/-- Behind `front`, a word starts. A run of digits may stand directly in front of it, since these
start no word. -/
structure Starts (front word : List Char) : Prop where
  first : ∃ c ∈ word.head?, isWordStart c = true
  all : ∀ c ∈ word, isWordChar c = true
  behind : ∀ c ∈ front.reverse.takeWhile isWordChar, isWordStart c = false

/-- The word ends in front of `back`. -/
def EndsWord (back : List Char) : Prop := ∀ c ∈ back.head?, isWordChar c = false

theorem endsWord_nil : EndsWord [] := by simp [EndsWord]

/-- From the column on, the line has the word and nothing more of it. -/
def WordAt (line : List Char) (column : Nat) (word : List Char) : Prop :=
  ∃ front back, line = front ++ word ++ back ∧ column = front.length + 1 ∧
    Starts front word ∧ EndsWord back

/-- A word is told by where it starts and what its characters are. -/
theorem takeWhile_isWordChar {back : List Char} (hword : ∀ c ∈ word, isWordChar c = true)
    (hback : EndsWord back) : (word ++ back).takeWhile isWordChar = word := by
  have hnone : back.takeWhile isWordChar = [] := by
    cases back with
    | nil => rfl
    | cons c back => simp [hback c rfl]
  rw [List.takeWhile_append_of_pos hword, hnone, List.append_nil]

/-- At most one word is in a column. -/
theorem WordAt.unique {line other : List Char} (h : WordAt line column word)
    (h' : WordAt line column other) : word = other := by
  obtain ⟨front, back, rfl, rfl, hstarts, hends⟩ := h
  obtain ⟨front', back', hline, hcolumn, hstarts', hends'⟩ := h'
  rw [List.append_assoc, List.append_assoc] at hline
  obtain ⟨-, hbehind⟩ := List.append_inj hline (Nat.succ.inj hcolumn)
  calc word = (word ++ back).takeWhile isWordChar := (takeWhile_isWordChar hstarts.all hends).symm
    _ = (other ++ back').takeWhile isWordChar := by rw [hbehind]
    _ = other := takeWhile_isWordChar hstarts'.all hends'

/-- The word stands in the text at that place. -/
def StandsAt (text : List Char) (line column : Nat) (word : List Char) : Prop :=
  1 ≤ line ∧ ∃ l, (Text.lines text)[line - 1]? = some l ∧ WordAt l column word

theorem StandsAt.unique {text other : List Char} {line : Nat} (h : StandsAt text line column word)
    (h' : StandsAt text line column other) : word = other := by
  obtain ⟨-, l, hl, hword⟩ := h
  obtain ⟨-, l', hl', hother⟩ := h'
  obtain rfl : l = l' := Option.some.inj (hl.symm.trans hl')
  exact hword.unique hother

/-! ## The tokens of a line -/

/-- A line that is read up to the column: `front` is behind the reading, and the characters of a
word that may still go on are in `word`, last one first. -/
structure ReadTo (front word : List Char) (column : Nat) : Prop where
  starts : word ≠ [] → Starts front word.reverse
  behind : ∀ c ∈ front.reverse.takeWhile isWordChar, isWordStart c = false
  column : column = front.length + word.length + 1

namespace ReadTo

variable {c : Char}

theorem start : ReadTo [] [] 1 where
  starts h := absurd rfl h
  behind := by simp
  column := rfl

/-- The word goes on, or one starts. -/
theorem extend (h : ReadTo front word column)
    (hc : (isWordChar c && (!word.isEmpty || isWordStart c)) = true) :
    ReadTo front (c :: word) (column + 1) := by
  obtain ⟨hchar, hgoes⟩ := Bool.and_eq_true_iff.1 hc
  have hcolumn := h.column
  refine ⟨fun _ => ?_, h.behind, by rw [List.length_cons]; omega⟩
  rw [List.reverse_cons]
  by_cases hempty : word = []
  · subst hempty
    exact ⟨⟨c, rfl, by simpa using hgoes⟩, by simpa using hchar, h.behind⟩
  · obtain ⟨⟨d, hd, hstart⟩, hall, hbehind⟩ := h.starts hempty
    have hfirst : d ∈ (word.reverse ++ [c]).head? := by
      simp [List.head?_append, Option.mem_def.1 hd]
    have hall' : ∀ e ∈ word.reverse ++ [c], isWordChar e = true := by
      simpa [or_imp, forall_and, hchar] using hall
    exact ⟨⟨d, hfirst, hstart⟩, hall', hbehind⟩

/-- A character that is part of no word is left behind, together with the word in front of it. -/
theorem skip (h : ReadTo front word column)
    (hc : ¬ (isWordChar c && (!word.isEmpty || isWordStart c)) = true) :
    ReadTo (front ++ word.reverse ++ [c]) [] (column + 1) := by
  have hcolumn : column + 1 = (front ++ word.reverse ++ [c]).length + 1 := by
    simp only [h.column, List.length_append, List.length_reverse, List.length_singleton]
  refine ⟨absurd rfl, fun d hd => ?_, hcolumn⟩
  have hreverse : (front ++ word.reverse ++ [c]).reverse = c :: (word ++ front.reverse) := by simp
  rw [hreverse, List.takeWhile_cons] at hd
  by_cases hchar : isWordChar c = true
  · -- Only a digit behind no word gets here.
    have hdigit : word = [] ∧ isWordStart c = false := by simpa [hchar] using hc
    obtain ⟨rfl, hstart⟩ := hdigit
    rw [if_pos hchar] at hd
    rcases List.mem_cons.1 hd with rfl | hd
    · exact hstart
    · exact h.behind d hd
  · rw [if_neg hchar] at hd
    contradiction

/-- The word is a token if it ends here. -/
theorem wordAt_of_mem_wordToken {back : List Char} (h : ReadTo front word column)
    (hback : word ≠ [] → EndsWord back) (ht : t ∈ wordToken n word column) :
    WordAt (front ++ word.reverse ++ back) t.column t.text.toList := by
  by_cases hempty : word = []
  · subst hempty
    contradiction
  · obtain rfl : t = ⟨String.ofList word.reverse, n, column - word.length⟩ := by
      simpa [wordToken, hempty] using ht
    refine ⟨front, back, by simp, ?_, by simpa using h.starts hempty, hback hempty⟩
    have := h.column
    dsimp only
    omega

end ReadTo

/-- The tokens of a line are its semicolons and words. -/
theorem wordAt_of_mem_tokensFrom (h : ReadTo front word column)
    (ht : t ∈ tokensFrom n word column rest) :
    t.text = ";" ∨ WordAt (front ++ word.reverse ++ rest) t.column t.text.toList := by
  fun_induction tokensFrom n word column rest generalizing front with
  | case1 word column => exact .inr (h.wordAt_of_mem_wordToken (fun _ => endsWord_nil) ht)
  | case2 word column c rest hc ih => simpa using ih (h.extend hc) ht
  | case3 word column c rest hc ih =>
    rw [List.mem_append, List.mem_append] at ht
    rcases ht with (ht | ht) | ht
    · refine .inr (h.wordAt_of_mem_wordToken (fun hne => ?_) ht)
      simpa [EndsWord, hne] using hc
    · split at ht
      · rw [List.mem_singleton.1 ht]
        exact .inl rfl
      · contradiction
    · simpa using ih (h.skip hc) ht

/-! ## Cleaning makes up no tokens -/

/-- A blank ends the word in front of it. -/
theorem tokensFrom_blank (n : Nat) (word : List Char) (column : Nat) (rest : List Char) :
    tokensFrom n word column (' ' :: rest) =
      wordToken n word column ++ tokensFrom n [] (column + 1) rest := by
  simp [tokensFrom, isWordChar]

/-- A delimiter ends the word in front of it, and so does the blank that takes its place. -/
theorem tokensFrom_blank_subset {c : Char} {word' cleaned : List Char} (hc : isWordChar c = false)
    (hword : word = word' ∨ word = [])
    (h : tokensFrom n [] (column + 1) cleaned ⊆ tokensFrom n [] (column + 1) rest) :
    tokensFrom n word column (' ' :: cleaned) ⊆ tokensFrom n word' column (c :: rest) := by
  have hfirst : wordToken n word column ⊆ wordToken n word' column := by
    rcases hword with rfl | rfl
    · exact List.Subset.refl _
    · exact List.nil_subset _
  intro t ht
  rw [tokensFrom_blank] at ht
  rw [tokensFrom, hc]
  rcases List.mem_append.1 ht with ht | ht
  · simp [hfirst ht]
  · simp [h ht]

/-- Inside of a passage a line goes on with some word or other, and the blank in its place with
none. -/
theorem tokensFrom_blankThen_subset {c : Char} {word' : List Char} {blanked : List Char × Region}
    (h : ∀ word', tokensFrom n [] (column + 1) blanked.1 ⊆ tokensFrom n word' (column + 1) rest) :
    tokensFrom n [] column (blankThen blanked).1 ⊆ tokensFrom n word' column (c :: rest) := by
  have hnext :
      ∃ next, tokensFrom n next (column + 1) rest ⊆ tokensFrom n word' column (c :: rest) := by
    rw [tokensFrom]
    split
    · exact ⟨c :: word', List.Subset.refl _⟩
    · exact ⟨[], List.subset_append_right _ _⟩
  obtain ⟨next, hnext⟩ := hnext
  exact List.Subset.trans (h next) hnext

/-- Reading a blanked line, one has the word that one has reading the line as it was written.
Inside of a passage one has none, whatever the line itself goes on with. -/
def Region.Carries : Region → (word word' : List Char) → Prop
  | .code, word, word' => word = word'
  | .quoted, word, _ | .comment, word, _ => word = []

/-- A blanked line has no token that the line as it was written has not. -/
theorem tokensFrom_blankFrom_subset {region : Region} {word' : List Char}
    (h : region.Carries word word') :
    tokensFrom n word column (blankFrom region rest).1 ⊆ tokensFrom n word' column rest := by
  fun_induction blankFrom region rest generalizing word word' column with
  | case1 region =>
    have hword : word = word' ∨ word = [] := by
      cases region with
      | code => exact .inl h
      | quoted | comment => exact .inr h
    rcases hword with rfl | rfl
    · exact List.Subset.refl _
    · exact List.nil_subset _
  | case2 rest ih =>
    exact tokensFrom_blank_subset rfl (.inr h) (tokensFrom_blank_subset rfl (.inr rfl) (ih rfl))
  | case3 c rest _ ih | case5 c rest _ ih =>
    obtain rfl : word = [] := h
    exact tokensFrom_blankThen_subset fun _ => ih rfl
  | case4 rest ih => exact tokensFrom_blank_subset rfl (.inr h) (ih rfl)
  | case6 rest ih => exact tokensFrom_blank_subset rfl (.inl h) (ih rfl)
  | case7 rest =>
    obtain rfl : word = word' := h
    intro t ht
    rw [tokensFrom]
    exact List.mem_append_left _ (List.mem_append_left _ ht)
  | case8 rest ih =>
    exact tokensFrom_blank_subset rfl (.inl h) (tokensFrom_blank_subset rfl (.inr rfl) (ih rfl))
  | case9 c rest _ _ _ ih =>
    obtain rfl : word = word' := h
    rw [tokensFrom, tokensFrom]
    split
    · exact ih rfl
    · exact List.append_subset.2
        ⟨List.subset_append_left _ _, List.subset_append_of_subset_right _ (ih rfl)⟩

/-! ## The tokens of a text -/

/-- Whatever follows a line, its tokens stay unless the last of them goes on. -/
theorem tokensFrom_subset_append {tail : List Char} (htail : EndsWord tail) :
    tokensFrom n word column rest ⊆ tokensFrom n word column (rest ++ tail) := by
  fun_induction tokensFrom n word column rest with
  | case1 word column =>
    cases tail with
    | nil => exact List.Subset.refl _
    | cons c tail =>
      rw [List.nil_append, tokensFrom, htail c rfl, List.append_assoc]
      exact List.subset_append_left _ _
  | case2 word column c rest hc ih =>
    rw [List.cons_append, tokensFrom, if_pos hc]
    exact ih
  | case3 word column c rest hc ih =>
    rw [List.cons_append, tokensFrom, if_neg hc]
    exact List.append_subset.2
      ⟨List.subset_append_left _ _, List.subset_append_of_subset_right _ ih⟩

/-- The break that ends a line ends the last word of it. -/
theorem exists_content_append (line : List Char) :
    ∃ breaks, Text.content line ++ breaks = line ∧ EndsWord breaks := by
  refine ⟨(line.reverse.takeWhile fun c => c == '\n' || c == '\r').reverse, ?_, fun c hc => ?_⟩
  · rw [Text.content, ← List.reverse_append, List.takeWhile_append_dropWhile, List.reverse_reverse]
  · have hread := List.mem_reverse.1 (List.mem_of_mem_head? hc)
    have hbreak := List.all_eq_true.1 List.all_takeWhile c hread
    rcases Bool.or_eq_true_iff.1 hbreak with h | h <;> rw [eq_of_beq h] <;> decide

theorem tokens_content_subset (n : Nat) (line : List Char) :
    tokens n (Text.content line) ⊆ tokens n line := by
  obtain ⟨breaks, hline, hends⟩ := exists_content_append line
  calc tokens n (Text.content line)
    _ ⊆ tokens n (Text.content line ++ breaks) := tokensFrom_subset_append hends
    _ = tokens n line := by rw [hline]

theorem exists_of_getElem?_blankLines {region : Region} {ls : List (List Char)} {i : Nat}
    {cleaned : List Char} (h : (blankLines region ls)[i]? = some cleaned) :
    ∃ line region, ls[i]? = some line ∧ (blankFrom region line).1 = cleaned := by
  induction ls generalizing region i with
  | nil => contradiction
  | cons line ls ih =>
    cases i with
    | zero => exact ⟨line, region, rfl, Option.some.inj h⟩
    | succ i => exact ih h

/-- A token that carries structure is one of its line as it was written. -/
theorem mem_tokens_of_mem_codeTokens {text : List Char} (h : t ∈ codeTokens text) :
    1 ≤ t.line ∧ ∃ line, (Text.lines text)[t.line - 1]? = some line ∧ t ∈ tokens t.line line := by
  obtain ⟨hfirst, cleaned, hcleaned, ht⟩ := exists_of_mem_codeTokensFrom h
  rw [markedLines, map_snd_markDirectives, cleanLines] at hcleaned
  obtain ⟨kept, region, hkept, rfl⟩ := exists_of_getElem?_blankLines hcleaned
  obtain ⟨line, hline, rfl⟩ := Option.map_eq_some_iff.1 (List.getElem?_map.symm.trans hkept)
  have hcarries : region.Carries [] [] := by cases region <;> rfl
  have hblank : tokens t.line (blankFrom region (Text.content line)).1 ⊆
      tokens t.line (Text.content line) :=
    tokensFrom_blankFrom_subset hcarries
  exact ⟨hfirst, line, hline, tokens_content_subset _ _ (hblank ht)⟩

/-- So it is a semicolon, or a word that stands in the text. -/
theorem standsAt_of_mem_codeTokens {text : List Char} (h : t ∈ codeTokens text) :
    t.text = ";" ∨ StandsAt text t.line t.column t.text.toList := by
  obtain ⟨hfirst, line, hline, ht⟩ := mem_tokens_of_mem_codeTokens h
  rcases wordAt_of_mem_tokensFrom .start ht with hsemicolon | hword
  · exact .inl hsemicolon
  · exact .inr ⟨hfirst, line, hline, hword⟩

end ScriptDesk.Script
