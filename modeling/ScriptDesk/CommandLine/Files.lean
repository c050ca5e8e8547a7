/-!
# ScriptDesk.CommandLine.Files

What the program sees of the files around it, and a file tree in which paths are
looked up. A path is carried out step by step from where the tree is rooted, and
every step has to start from a directory (`FileTree.walk`).
-/

namespace ScriptDesk

/-- What lies at a path. -/
inductive FileState where
  | missing
  | directory
  /-- A file, but no text: its bytes are not UTF-8. -/
  | unreadable
  | text (content : String)
deriving DecidableEq, Repr, Inhabited

namespace FileState

/-- The text that lies there. -/
def text? : FileState → Option String
  | .text content => some content
  | .missing | .directory | .unreadable => none

/-- What a file with these bytes is read as. -/
def ofBytes (bytes : ByteArray) : FileState :=
  match String.fromUTF8? bytes with
  | some content => .text content
  | none => .unreadable

end FileState

/-- A place for files: in the tree or in the system around it, at the end of some
steps from its root. -/
inductive Place where
  | inside (down : List String)
  | outside (down : List String)
deriving DecidableEq, Repr

namespace Place

/-- The directory in which a place lies. The tree lies in the directory for
temporary files, and the root of the system in itself. -/
def parent : Place → Place
  | .inside [] => .outside ["tmp"]
  | .inside down => .inside down.dropLast
  | .outside down => .outside down.dropLast

/-- Where a step leads to. An empty step or a dot stays, and two dots go up. -/
def step (here : Place) (name : String) : Place :=
  if name = "" || name = "." then here
  else if name = ".." then here.parent
  else
    match here with
    | .inside down => .inside (down ++ [name])
    | .outside down => .outside (down ++ [name])

/-- The places that steps lead to, one after the other. -/
def along : Place → List String → List Place
  | _, [] => []
  | here, name :: rest => here.step name :: (here.step name).along rest

/-- Where a path starts: at the root of the system if a slash is in front, and else
at that of the tree. -/
def start (path : String) : Place :=
  if path.toList.head? = some '/' then .outside [] else .inside []

end Place

/-- A directory with files in it, and what is known of the system around it. Of two
entries for a place the first one holds. -/
structure FileTree where
  entries : List (Place × FileState)
deriving Repr

namespace FileTree

/-- The directories that every system has below its root. -/
def systemDirectories : List String :=
  ["bin", "boot", "dev", "etc", "home", "lib", "media", "mnt", "opt", "proc", "root", "run",
    "sbin", "srv", "sys", "tmp", "usr", "var"]

/-- The files that every system has, as far as they are known: the null device and
the standard input, from which nothing comes. -/
def systemFiles : List (List String) := [["dev", "null"], ["dev", "stdin"]]

/-- The tree without files. -/
def empty : FileTree where
  entries :=
    [(.inside [], .directory), (.outside [], .directory)] ++
      systemDirectories.map (fun name => (.outside [name], .directory)) ++
      systemFiles.map (fun down => (.outside down, .text ""))

instance : Inhabited FileTree := ⟨empty⟩

/-- The steps of a path: what stands between its slashes. -/
def steps (path : String) : List String := path.splitOn "/"

/-- What lies at a place. -/
def stateAt (t : FileTree) (place : Place) : FileState := (t.entries.lookup place).getD .missing

/-- Puts something at a path, and makes the directories that the path leads
through. -/
def put (t : FileTree) (path : String) (state : FileState) : FileTree :=
  match ((Place.start path).along (steps path)).reverse with
  | [] => t
  | last :: passed => ⟨(last, state) :: passed.map (·, .directory) ++ t.entries⟩

/-- What steps lead to from a place. Every step needs a directory to start from,
also one that stays or goes up. -/
def walk (t : FileTree) : Place → List String → FileState
  | here, [] => t.stateAt here
  | here, name :: rest =>
    if t.stateAt here = .directory then t.walk (here.step name) rest else .missing

/-- A path has fewer bytes than this. -/
def maxPathBytes : Nat := 4096

/-- What lies at a path. An empty path leads nowhere, and neither does one that is
too long. -/
def look (t : FileTree) (path : String) : FileState :=
  if path = "" || maxPathBytes ≤ path.utf8ByteSize then .missing
  else t.walk (.start path) (steps path)

/-- A file is the end of every walk: nothing lies behind it. -/
theorem walk_of_ne_directory {t : FileTree} {here : Place} {name : String} {rest : List String}
    (h : t.stateAt here ≠ .directory) : t.walk here (name :: rest) = .missing := by
  simp [walk, h]

/-- Behind a directory the walk goes on. -/
theorem walk_of_eq_directory {t : FileTree} {here : Place} {name : String} {rest : List String}
    (h : t.stateAt here = .directory) :
    t.walk here (name :: rest) = t.walk (here.step name) rest := by
  simp [walk, h]

/-- The state that was put at a path lies at the place where the path ends. -/
theorem stateAt_put {t : FileTree} {path : String} {state : FileState} {place : Place}
    (h : ((Place.start path).along (steps path)).getLast? = some place) :
    (t.put path state).stateAt place = state := by
  rw [List.getLast?_eq_head?_reverse] at h
  unfold put
  split
  · next hnil => simp [hnil] at h
  · next last passed hcons =>
    rw [hcons, List.head?_cons, Option.some.injEq] at h
    simp [stateAt, h]

end FileTree

end ScriptDesk
