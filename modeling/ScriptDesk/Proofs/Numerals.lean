import Mathlib.Data.List.Induction
import ScriptDesk.Text.Numeral

/-!
# ScriptDesk.Proofs.Numerals

What is read as a natural number is what writes one: its decimal digits, with any number of zeros
and at most one plus sign in front (`Text.natural?_eq_some_iff`).
-/

namespace ScriptDesk.Text

/-- The text writes the number: its digits, after zeros and a plus sign at will. -/
def Writes (cs : List Char) (n : Nat) : Prop :=
  ∃ sign zeros, (sign = [] ∨ sign = ['+']) ∧
    cs = sign ++ (List.replicate zeros '0' ++ Nat.toDigits 10 n)

theorem writes_toDigits (n : Nat) : Writes (Nat.toDigits 10 n) n := ⟨[], 0, .inl rfl, rfl⟩

/-! ## Digits -/

theorem digitChar_of_isDigit {c : Char} (h : c.isDigit = true) :
    c.toNat - '0'.toNat < 10 ∧ (c.toNat - '0'.toNat).digitChar = c := by
  have hrange : 48 ≤ c.toNat ∧ c.toNat ≤ 57 := by
    simp only [Char.isDigit, Bool.and_eq_true, decide_eq_true_eq] at h
    exact h
  have hlt : c.toNat - 48 < 10 := by omega
  refine ⟨hlt, Char.toNat_inj.1 ?_⟩
  calc (c.toNat - 48).digitChar.toNat
    _ = 48 + (c.toNat - 48) := Nat.toNat_digitChar_of_lt_ten hlt
    _ = c.toNat := by omega

theorem isDigit_of_mem_zeros_append {zeros n : Nat} {c : Char}
    (h : c ∈ List.replicate zeros '0' ++ Nat.toDigits 10 n) : c.isDigit = true := by
  rcases List.mem_append.1 h with h | h
  · rw [List.eq_of_mem_replicate h]
    rfl
  · exact Nat.isDigit_of_mem_toDigits (by decide) (by decide) h

/-- Digits write their value. -/
theorem exists_zeros {cs : List Char} (hdigits : ∀ c ∈ cs, c.isDigit = true) (hne : cs ≠ []) :
    ∃ zeros, cs = List.replicate zeros '0' ++ Nat.toDigits 10 (Nat.ofDigitChars 10 cs 0) := by
  -- The last digit comes off the end, as it does in `Nat.toDigits`.
  induction cs using List.reverseRecOn with
  | nil => exact absurd rfl hne
  | append_singleton before c ih =>
    obtain ⟨hlt, hc⟩ := digitChar_of_isDigit (hdigits c (by simp))
    have hlast : Nat.toDigits 10 (c.toNat - '0'.toNat) = [c] := by
      rw [Nat.toDigits_of_lt_base hlt, hc]
    rw [Nat.ofDigitChars_append, Nat.ofDigitChars_cons, Nat.ofDigitChars_nil]
    by_cases hbefore : before = []
    · subst hbefore
      refine ⟨0, ?_⟩
      rw [Nat.ofDigitChars_nil, Nat.mul_zero, Nat.zero_add, hlast]
      rfl
    · obtain ⟨zeros, hzeros⟩ := ih (fun d hd => hdigits d (by simp [hd])) hbefore
      rcases Nat.eq_zero_or_pos (Nat.ofDigitChars 10 before 0) with hzero | hpos
      · refine ⟨zeros + 1, ?_⟩
        rw [hzero, Nat.toDigits_zero, ← List.replicate_succ'] at hzeros
        rw [hzero, Nat.mul_zero, Nat.zero_add, hlast, ← hzeros]
      · refine ⟨zeros, ?_⟩
        rw [← Nat.toDigits_append_toDigits (by decide) hpos hlt, hlast, ← List.append_assoc,
          ← hzeros]

/-! ## Reading -/

theorem digitsValue?_eq_some_iff {value n : Nat} {cs : List Char} :
    digitsValue? value cs = some n ↔
      (∀ c ∈ cs, c.isDigit = true) ∧ Nat.ofDigitChars 10 cs value = n := by
  induction cs generalizing value with
  | nil => simp [digitsValue?]
  | cons c rest ih =>
    rw [digitsValue?, List.forall_mem_cons, Nat.ofDigitChars_cons]
    split
    · next hdigit => simp [hdigit, ih]
    · next hdigit => simp [hdigit]

theorem digits?_eq_some_iff {n : Nat} {cs : List Char} :
    digits? cs = some n ↔
      ∃ zeros, cs = List.replicate zeros '0' ++ Nat.toDigits 10 n := by
  unfold digits?
  constructor
  · intro h
    split at h
    · contradiction
    · next hne =>
      obtain ⟨hdigits, rfl⟩ := digitsValue?_eq_some_iff.1 h
      exact exists_zeros hdigits (by simpa using hne)
  · rintro ⟨zeros, rfl⟩
    rw [if_neg (by simp), digitsValue?_eq_some_iff]
    refine ⟨fun c => isDigit_of_mem_zeros_append, ?_⟩
    rw [Nat.ofDigitChars_append, Nat.ofDigitChars_replicate_zero, Nat.mul_zero,
      Nat.ofDigitChars_ten_toDigits]

/-- A number is read from the texts that write it, if it is in its bound. -/
theorem natural?_eq_some_iff {bound n : Nat} {cs : List Char} :
    natural? bound cs = some n ↔ n < bound ∧ Writes cs n := by
  simp only [natural?, Option.filter_eq_some_iff, decide_eq_true_eq, digits?_eq_some_iff]
  rw [and_comm]
  refine and_congr_right fun _ => ⟨?_, ?_⟩
  · rintro ⟨zeros, h⟩
    split at h
    · next rest => exact ⟨['+'], zeros, .inr rfl, congrArg _ h⟩
    · exact ⟨[], zeros, .inl rfl, h⟩
  · rintro ⟨sign, zeros, rfl | rfl, rfl⟩
    · refine ⟨zeros, ?_⟩
      split
      · next rest heq =>
        rw [List.nil_append] at heq
        have hplus : '+'.isDigit = true :=
          isDigit_of_mem_zeros_append (heq ▸ List.mem_cons_self)
        contradiction
      · rfl
    · exact ⟨zeros, rfl⟩

/-- A colon is no part of a written number. -/
theorem Writes.colon_notMem {cs : List Char} {n : Nat} (h : Writes cs n) : ':' ∉ cs := by
  obtain ⟨sign, zeros, hsign, rfl⟩ := h
  intro hmem
  rcases List.mem_append.1 hmem with hmem | hmem
  · rcases hsign with rfl | rfl <;> simp at hmem
  · have hcolon := isDigit_of_mem_zeros_append hmem
    contradiction

theorem Writes.ne_nil {cs : List Char} {n : Nat} (h : Writes cs n) : cs ≠ [] := by
  obtain ⟨sign, zeros, -, rfl⟩ := h
  simp

end ScriptDesk.Text
