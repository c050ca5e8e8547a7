import ScriptDesk.Text.Numeral

/-!
# ScriptDesk.CommandLine.Location

A place in a file as the user writes it: `path` or `path:line`. The line is what
follows the last colon, if that is a line number; everything else is a path. The
colon of a drive (`C:\scripts`) is never taken for that colon.
-/

namespace ScriptDesk

/-- A file and, maybe, one of its lines, counted from 1. -/
structure Location where
  path : String
  line : Option Nat
deriving DecidableEq, Repr, Inhabited

namespace Location

/-- Cuts at the last colon. -/
def splitLastColon? : List Char → Option (List Char × List Char)
  | [] => none
  | c :: rest =>
    match splitLastColon? rest with
    | some (before, after) => some (c :: before, after)
    | none => if c = ':' then some ([], rest) else none

/-- The drive in front of a path: one ASCII character and a colon, with something
behind them. -/
def splitDrive : List Char → List Char × List Char
  | c :: ':' :: d :: rest =>
    if c.toNat < 128 then ([c, ':'], d :: rest) else ([], c :: ':' :: d :: rest)
  | cs => ([], cs)

/-- A line number is at least 1 and less than 2^32. -/
def lineNumber? (cs : List Char) : Option Nat := (Text.natural? UInt32.size cs).filter (0 < ·)

/-- Reads a location. -/
def ofString (s : String) : Location :=
  let (drive, rest) := splitDrive s.toList
  match splitLastColon? rest with
  | some (before, after) =>
    match lineNumber? after with
    | some line => ⟨String.ofList (drive ++ before), some line⟩
    | none => ⟨s, none⟩
  | none => ⟨s, none⟩

theorem append_of_splitLastColon? {cs before after : List Char}
    (h : splitLastColon? cs = some (before, after)) : before ++ ':' :: after = cs := by
  induction cs generalizing before after with
  | nil => simp [splitLastColon?] at h
  | cons c rest ih =>
    simp only [splitLastColon?] at h
    split at h
    · next b a hr => cases h; simp [ih hr]
    · split at h
      · next hc => cases h; simp [hc]
      · cases h

theorem append_splitDrive (cs : List Char) : (splitDrive cs).1 ++ (splitDrive cs).2 = cs := by
  unfold splitDrive
  split
  · split <;> rfl
  · rfl

end Location

end ScriptDesk
