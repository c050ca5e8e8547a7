import ScriptDesk.CommandLine.Arguments
import ScriptDesk.CommandLine.Files
import ScriptDesk.CommandLine.Location
import ScriptDesk.CommandLine.Watch

/-!
# ScriptDesk.CommandLine.Program

The program: what it prints and how it ends, as a function of its arguments and
of the files around it. `analyze` prints reports only if all its files can be
read.
-/

namespace ScriptDesk

/-- Why the program could not do its task. -/
inductive ProgramError where
  /-- The configuration file that was asked for is no configuration. -/
  | loading (path : String)
  /-- The configuration file of the user is no configuration. -/
  | loadingUserConfig
  /-- The script cannot be read. -/
  | reading (path : String)
  /-- The script to be watched is missing. -/
  | readingMetadata (path : String)
  /-- The location has no line. -/
  | noLine (path : String)
  /-- There is no analysis to look into. -/
  | noAnalysis
deriving DecidableEq, Repr, Inhabited

/-- The wording of an error. -/
def ProgramError.message : ProgramError → String
  | .loading path => "loading " ++ path
  | .loadingUserConfig => "loading user configuration"
  | .reading path => "reading " ++ path
  | .readingMetadata path => "reading metadata of " ++ path
  | .noLine path => "expected `path:line`, got " ++ path
  | .noAnalysis => "analysis produced no result"

/-- How the program ends. -/
inductive Ending where
  /-- The task is done, and this was printed. -/
  | done (output : String)
  | failed (error : ProgramError)
  | refused (error : UsageError)
deriving DecidableEq, Repr

/-- The exit code for an ending. To be asked for help is no error. -/
def Ending.exitCode : Ending → Nat
  | .done _ | .refused .helpWanted | .refused .versionWanted => 0
  | .failed _ => 1
  | .refused _ => 2

/-- The line that tells the version of the program. -/
def versionLine : String := "scriptide 0.3.0\n"

/-- What the task printed up to the end. The version is all that is printed when it
is asked for. -/
def Ending.output : Ending → String
  | .done output => output
  | .refused .versionWanted => versionLine
  | .failed _ | .refused _ => ""

/-- The message of an ending by an error of the task. -/
def Ending.message? : Ending → Option String
  | .failed error => some error.message
  | .done _ | .refused _ => none

namespace Program

/-- What lies at each path. -/
abbrev Look := String → FileState

/-- The configuration: that in the file that was asked for, or else that of the
user if there is one, or else the default. -/
def loadConfig (look : Look) (userPath : String) (asked : Option String) :
    Except ProgramError Config :=
  let read? (file : FileState) : Option Config :=
    file.text?.bind fun content => (Config.ofToml content).toOption
  match asked with
  | some path => (read? (look path)).elim (.error (.loading path)) .ok
  | none =>
    match look userPath with
    | .missing => .ok {}
    | file => (read? file).elim (.error .loadingUserConfig) .ok

/-- Reads a script. -/
def readScript (look : Look) (path : String) : Except ProgramError String :=
  match look path with
  | .text content => .ok content
  | _ => .error (.reading path)

/-- An editor with these documents opened in order, and their identities. -/
def openAll (config : Config) (scripts : List (String × String)) : List DocumentId × Editor :=
  scripts.foldl (fun (ids, e) (path, content) =>
    let (id, e) := e.openDocument (some path) content
    (ids ++ [id], e)) ([], Editor.new config)

/-- The reports on scripts, given by path and content. -/
def analyzeScripts (config : Config) (scripts : List (String × String)) : List Report :=
  let (ids, e) := openAll config scripts
  ids.map (e.rest builtinAnalyzer 0).report

/-- Reports on all files. -/
def analyze (look : Look) (config : Config) (files : List String) : Except ProgramError String := do
  let scripts ← files.mapM fun path => do return (path, ← readScript look path)
  return String.join ((analyzeScripts config scripts).map Report.render)

/-- The line for the procedure at a line of a file. -/
def describe (path : String) (line : Nat) : Option Script.Procedure → String
  | some p =>
    let declared := p.name ++ " (declared @" ++ toString p.declaredAt
    match p.body with
    | some body =>
      declared ++ ", body " ++ toString body.first ++ "-" ++ toString body.last ++ ")"
    | none => declared ++ ", no body)"
  | none => "no procedure at " ++ path ++ ":" ++ toString line

/-- Tells which procedure stands at a location. -/
def locate (look : Look) (config : Config) (location : Location) : Except ProgramError String := do
  let some line := location.line | .error (.noLine location.path)
  let content ← readScript look location.path
  let (ids, e) := openAll config [(location.path, content)]
  let some analysis := ids.head?.bind (e.rest builtinAnalyzer 0).analysis? | .error .noAnalysis
  return describe location.path line (analysis.enclosing? line) ++ "\n"

/-- Watches a file to which further contents are written, each after the report on
the one before it, and which is left alone after the last. -/
def watch (look : Look) (config : Config) (path : String) (later : List String) :
    Except ProgramError String := do
  if look path = .missing then .error (.readingMetadata path)
  let content ← readScript look path
  return String.join ((Watch.reports config path content later).map Report.render)

/-- Does a task. -/
def perform (look : Look) (config : Config) (later : List String) :
    Task → Except ProgramError String
  | .analyze files minimal =>
    let settings := config.analysis
    let config :=
      if minimal then { config with analysis := { settings with enabled := false } } else config
    analyze look config files
  | .locate target => locate look config (.ofString target)
  | .watch file _ => watch look config file later

/-- The paths that a task looks at. -/
def taskPaths : Task → List String
  | .analyze files _ => files
  | .locate target => [(Location.ofString target).path]
  | .watch file _ => [file]

/-- The paths that an invocation looks at. -/
def paths (userPath : String) (invocation : Invocation) : List String :=
  invocation.config.getD userPath :: taskPaths invocation.task

/-- Runs the program. `userPath` is where the configuration of the user lies, and
`later` holds what is written to a watched file. -/
def run (look : Look) (userPath : String) (words later : List String) : Ending :=
  match CommandLine.parse words with
  | .error error => .refused error
  | .ok invocation =>
    match loadConfig look userPath invocation.config with
    | .error error => .failed error
    | .ok config =>
      match perform look config later invocation.task with
      | .error error => .failed error
      | .ok output => .done output

end Program

end ScriptDesk
