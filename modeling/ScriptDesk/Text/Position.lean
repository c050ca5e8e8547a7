/-!
# ScriptDesk.Text.Position

A place of the caret in a text.
-/

namespace ScriptDesk

/-- A caret position; line and column count from 0. -/
structure Position where
  line : Nat
  column : Nat
deriving DecidableEq, Repr, Inhabited

end ScriptDesk
