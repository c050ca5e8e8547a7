/-!
# ScriptDesk.Text.Caseless

Scripts do not tell `Start` from `START`. Two strings are the same without
case when they agree character by character, a letter `A`–`Z` standing for its
small form; no character outside ASCII has another form here.
-/

namespace ScriptDesk.Text

/-- The string in which every ASCII capital is small: two names are the same
without case when these agree. -/
def foldCase (s : String) : List Char := s.toList.map Char.toLower

/-- Equality up to the case of ASCII letters. -/
def sameCaseless (a b : String) : Bool := foldCase a == foldCase b

theorem sameCaseless_iff {a b : String} : sameCaseless a b = true ↔ foldCase a = foldCase b := by
  simp [sameCaseless]

@[simp] theorem sameCaseless_refl (a : String) : sameCaseless a a = true := by
  simp [sameCaseless]

theorem sameCaseless_comm (a b : String) : sameCaseless a b = sameCaseless b a := by
  rw [Bool.eq_iff_iff, sameCaseless_iff, sameCaseless_iff, eq_comm]

theorem sameCaseless_trans {a b c : String} (hab : sameCaseless a b = true)
    (hbc : sameCaseless b c = true) : sameCaseless a c = true :=
  sameCaseless_iff.2 ((sameCaseless_iff.1 hab).trans (sameCaseless_iff.1 hbc))

end ScriptDesk.Text
