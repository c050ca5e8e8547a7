/-!
# ScriptDesk.Text.Numeral

Reading natural numbers: an optional plus sign, then one or more decimal digits,
leading zeros included. A number that is out of its bound is not read at all.
-/

namespace ScriptDesk.Text

/-- The value of decimal digits that follow digits of value `value`. Anything
but digits has none. -/
def digitsValue? (value : Nat) : List Char → Option Nat
  | [] => some value
  | c :: rest =>
    if c.isDigit then digitsValue? (10 * value + (c.toNat - '0'.toNat)) rest else none

/-- The value of one or more decimal digits. -/
def digits? (cs : List Char) : Option Nat := if cs.isEmpty then none else digitsValue? 0 cs

/-- The value of a written number that is less than `bound`. -/
def natural? (bound : Nat) (cs : List Char) : Option Nat :=
  let digits := match cs with
    | '+' :: rest => rest
    | _ => cs
  (digits? digits).filter (· < bound)

/-- What is read stays in its bound. -/
theorem lt_of_natural?_eq_some {bound n : Nat} {cs : List Char}
    (h : natural? bound cs = some n) : n < bound := by
  simp only [natural?, Option.filter_eq_some_iff, decide_eq_true_eq] at h
  exact h.2

end ScriptDesk.Text
