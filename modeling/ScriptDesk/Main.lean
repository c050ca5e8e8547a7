import ScriptDesk.CommandLine.Program

/-!
# ScriptDesk.Main

The program on the command line. It only reads files and the clock and prints;
what it prints is said by `Program` and `Watch`.
-/

namespace ScriptDesk.Main

/-- The file at a path, seen from the working directory. -/
def look (path : String) : IO FileState := do
  if path.isEmpty then return .missing
  let file := (← IO.currentDir) / path
  if !(← file.pathExists) then return .missing
  if ← file.isDir then return .directory
  try
    return .ofBytes (← IO.FS.readBinFile file)
  catch _ => return .unreadable

/-- When the file at a path was changed last. -/
def changedAt (path : String) : IO (Option IO.FS.SystemTime) := do
  let file := (← IO.currentDir) / path
  try
    return some (← file.metadata).modified
  catch _ => return none

/-- The directory for the configuration of the user. -/
def configDirectory : IO (Option String) := do
  match ← IO.getEnv "XDG_CONFIG_HOME" with
  | some directory =>
    if directory.startsWith "/" then return some directory
  | none => pure ()
  return (← IO.getEnv "HOME").map (· ++ "/.config")

/-- The configuration file of the user. -/
def userConfigPath : IO String := do
  return ((← configDirectory).map (· ++ "/scriptide/config.toml")).getD ""

/-- What is printed about the use of the program. -/
def usage : String :=
  "Usage: scriptide [-c PATH] [-v] analyze FILE... [--minimal]\n" ++
    "       scriptide [-c PATH] [-v] locate PATH:LINE\n" ++
    "       scriptide [-c PATH] [-v] watch FILE [--poll-ms MS]\n"

/-- Ends the program with an error of its task. -/
def fail (error : ProgramError) : IO UInt32 := do
  IO.eprintln ("Error: " ++ error.message)
  return 1

/-- Prints what an ending has to say. -/
def conclude (ending : Ending) : IO UInt32 := do
  match ending with
  | .done output => IO.print output
  | .failed error => return ← fail error
  | .refused .helpWanted => IO.print usage
  | .refused .versionWanted => IO.print ending.output
  | .refused _ => IO.eprint usage
  return ending.exitCode.toUInt32

/-- Microseconds on the clock. -/
def clock : IO Time := do return (← IO.monoNanosNow) / 1000

/-- The longest wait between two turns, in milliseconds. -/
def longestWait : Nat := 50

/-- How long to wait until the next turn, in milliseconds: not beyond what is due
next, rounded up. -/
def waitBudget (w : Watch) (now : Time) (pollMs : Nat) : Nat :=
  let dueIn := w.editor.nextWakeup?.map fun at_ => (at_ - now + 999) / 1000
  min (min (dueIn.getD longestWait) longestWait) pollMs

/-- Watches a file until the program is interrupted or the file cannot be read. -/
partial def watchLoop (path : String) (pollMs : Nat) (seen : IO.FS.SystemTime) (w : Watch) :
    IO UInt32 := do
  IO.sleep (waitBudget w (← clock) pollMs).toUInt32
  let w := { w with editor := (w.editor.finishPass builtinAnalyzer).2, now := ← clock }
  let stamp := (← changedAt path).getD seen
  let mut w := w
  if stamp != seen then
    match ← look path with
    | .text content => w := w.notice content
    | _ => return ← fail (.reading path)
  let (reports, next) := w.turn (← clock)
  for report in reports do
    IO.print report.render
    (← IO.getStdout).flush
  watchLoop path pollMs stamp next

/-- Starts watching a file. -/
def watch (config : Config) (path : String) (pollMs : Nat) : IO UInt32 := do
  let some seen ← changedAt path | fail (.readingMetadata path)
  match ← look path with
  | .text content =>
    watchLoop path pollMs seen { Watch.start config path content with now := ← clock }
  | _ => fail (.reading path)

end ScriptDesk.Main

open ScriptDesk in
/-- Runs the program on its arguments. -/
def main (words : List String) : IO UInt32 := do
  match CommandLine.parse words with
  | .error error => Main.conclude (.refused error)
  | .ok invocation =>
    let userPath ← Main.userConfigPath
    let found ← (Program.paths userPath invocation).mapM fun path => do
      return (path, ← Main.look path)
    let look (path : String) : FileState := (found.lookup path).getD .missing
    match invocation.task with
    | .watch file pollMs =>
      match Program.loadConfig look userPath invocation.config with
      | .ok config => Main.watch config file pollMs
      | .error error => Main.fail error
    | _ => Main.conclude (Program.run look userPath words [])
