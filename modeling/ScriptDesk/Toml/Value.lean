/-!
# ScriptDesk.Toml.Value

The values of a TOML document. Numbers keep no width: whether an integer fits is
for its reader to say, and so is whether it has a value at all. Floats and dates
are recognized but kept as written.
-/

namespace ScriptDesk.Toml

/-- How a table came into being, which decides how it may still grow. -/
inductive Origin where
  /-- Written in braces: it never grows. -/
  | inline
  /-- Named by a header, or the whole document: only keys below its header. -/
  | header
  /-- On the way to a header: it may get a header of its own. -/
  | implied
  /-- On the way to a dotted key: it grows by further dotted keys. -/
  | dotted
deriving DecidableEq, Repr, Inhabited

/-- A TOML value. -/
inductive Value where
  | string (s : String)
  /-- An integer. What is only written like one (`0x`, `1_a`) has no value, which is
  an error for who reads it and for no one else. -/
  | integer (n : Option Int)
  | float (written : String)
  | boolean (b : Bool)
  | dateTime (written : String)
  /-- An array written in brackets. -/
  | array (items : List Value)
  /-- An array of tables made by double-bracket headers, the last one first. -/
  | tables (latestFirst : List Value)
  | table (origin : Origin) (entries : List (String × Value))
deriving Repr, Inhabited

/-- A table as it grows. -/
structure Table where
  origin : Origin
  entries : List (String × Value) := []
deriving Repr, Inhabited

namespace Table

/-- The table as a value. -/
def toValue (t : Table) : Value := .table t.origin t.entries

/-- The value under a key. -/
def get? (t : Table) (key : String) : Option Value := t.entries.lookup key

/-- Puts a value under a key. A key that is there keeps its place. -/
def put (t : Table) (key : String) (value : Value) : Table :=
  { t with
    entries :=
      if (t.get? key).isSome then
        t.entries.map fun e => if e.1 = key then (key, value) else e
      else t.entries ++ [(key, value)] }

/-- Follows a path of keys from a table and changes the table at its end. A table
that is missing on the way is made. With `dotted` the path is that of a dotted
key, which passes through no table that a header has named; otherwise it is that
of a header. An array of tables stands for its last table. -/
def modifyAt (dotted : Bool) (change : Table → Option Table) :
    (path : List String) → Table → Option Table
  | [], t => change t
  | key :: rest, t =>
    match t.get? key with
    | none => do
      let made ← modifyAt dotted change rest { origin := if dotted then .dotted else .implied }
      return t.put key made.toValue
    | some (.table origin entries) =>
      if origin = .inline || (dotted && origin = .header) then none
      else do
        let changed ← modifyAt dotted change rest { origin, entries }
        return t.put key changed.toValue
    | some (.tables (.table origin entries :: earlier)) => do
      let changed ← modifyAt dotted change rest { origin, entries }
      return t.put key (.tables (changed.toValue :: earlier))
    | some _ => none

/-- Adds a key that is not there yet. A dotted key ends in a table made by dotted
keys, any other key does not. -/
def addKey (isDotted : Bool) (key : String) (value : Value) (t : Table) : Option Table :=
  if (t.origin == .dotted) == isDotted && (t.get? key).isNone then some (t.put key value) else none

/-- Adds the value of a key of one or more parts. -/
def add? (t : Table) (key : List String) (value : Value) : Option Table := do
  let last ← key.getLast?
  t.modifyAt true (addKey (key.length ≠ 1) last value) key.dropLast

/-- Names the table under a key by a header: it is new, or was so far only on the
way to other headers. -/
def nameTable (key : String) (t : Table) : Option Table :=
  match t.get? key with
  | none => some (t.put key (.table .header []))
  | some (.table .implied entries) => some (t.put key (.table .header entries))
  | some _ => none

/-- Adds one more table to the array of tables under a key. -/
def appendTable (key : String) (t : Table) : Option Table :=
  match t.get? key with
  | none => some (t.put key (.tables [.table .header []]))
  | some (.tables latestFirst) => some (t.put key (.tables (.table .header [] :: latestFirst)))
  | some _ => none

end Table

end ScriptDesk.Toml
