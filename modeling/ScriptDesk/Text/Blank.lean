/-!
# ScriptDesk.Text.Blank

The blank characters: exactly those with the Unicode property `White_Space`.
Leading and trailing blanks never decide what a script line is, so the line
rules are stated on a line with its blanks trimmed (`trimStart`, `trimEnd`).
-/

namespace ScriptDesk.Text

/-- The code points with the property `White_Space`, as inclusive ranges in
increasing order. -/
def blankRanges : List (Nat × Nat) :=
  [(0x9, 0xD), (0x20, 0x20), (0x85, 0x85), (0xA0, 0xA0), (0x1680, 0x1680), (0x2000, 0x200A),
    (0x2028, 0x2029), (0x202F, 0x202F), (0x205F, 0x205F), (0x3000, 0x3000)]

/-- A character is blank when its code point lies in one of the ranges. -/
def isBlank (c : Char) : Bool :=
  blankRanges.any fun (low, high) => low ≤ c.toNat && c.toNat ≤ high

/-- The ASCII blanks are blank. -/
theorem isBlank_of_isWhitespace {c : Char} (h : c.isWhitespace = true) : isBlank c = true := by
  simp only [Char.isWhitespace, Bool.or_eq_true, decide_eq_true_eq] at h
  rcases h with ((rfl | rfl) | rfl) | rfl <;> decide

/-- The line without its leading blanks. -/
def trimStart (line : List Char) : List Char := line.dropWhile isBlank

/-- The line without its trailing blanks. -/
def trimEnd (line : List Char) : List Char := (line.reverse.dropWhile isBlank).reverse

/-- A trimmed line starts with no blank. -/
theorem isBlank_head_trimStart {line : List Char} {c : Char} {rest : List Char}
    (h : trimStart line = c :: rest) : isBlank c = false := by
  have hd : (line.dropWhile isBlank).head? = some c := by
    rw [show line.dropWhile isBlank = c :: rest from h]; rfl
  have := List.head?_dropWhile_not isBlank line
  rw [hd] at this
  simpa using this

end ScriptDesk.Text
