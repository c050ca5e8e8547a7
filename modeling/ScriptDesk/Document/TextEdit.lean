/-!
# ScriptDesk.Document.TextEdit

Changes to a text. Places are counted in characters; a place behind the end of
the text stands for its end.
-/

namespace ScriptDesk

/-- A change to a text. -/
inductive TextEdit where
  | replaceAll (text : String)
  /-- Takes out the characters from the first place up to the second; nothing, if
  that lies in front of the first. -/
  | remove (first last : Nat)
  | insert (place : Nat) (text : String)
deriving DecidableEq, Repr, Inhabited

namespace TextEdit

/-- The text after the change. -/
def apply (text : String) : TextEdit → String
  | .replaceAll new => new
  | .remove first last =>
    String.ofList (text.toList.take first ++ text.toList.drop (max first last))
  | .insert place new =>
    String.ofList (text.toList.take place ++ new.toList ++ text.toList.drop place)

/-- The text after several changes, made one after another. -/
def applyAll (text : String) (edits : List TextEdit) : String := edits.foldl apply text

@[simp] theorem applyAll_nil (text : String) : applyAll text [] = text := rfl

@[simp] theorem applyAll_cons (text : String) (edit : TextEdit) (edits : List TextEdit) :
    applyAll text (edit :: edits) = applyAll (apply text edit) edits := rfl

/-- Taking out nothing changes nothing. -/
theorem apply_remove_of_le {text : String} {first last : Nat} (h : last ≤ first) :
    apply text (.remove first last) = text := by
  simp [apply, Nat.max_eq_left h]

end TextEdit

end ScriptDesk
