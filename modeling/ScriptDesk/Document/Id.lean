/-!
# ScriptDesk.Document.Id

The identity of an open document: a number that is never given twice.
-/

namespace ScriptDesk

/-- The number of a document. -/
structure DocumentId where
  number : Nat
deriving DecidableEq, Repr, Inhabited

/-- How a document is named in messages. -/
def DocumentId.label (id : DocumentId) : String := "doc#" ++ toString id.number

end ScriptDesk
