import ScriptDesk.Text.Numeral

/-!
# ScriptDesk.CommandLine.Arguments

The command line: options for every command, then one of the commands

* `analyze FILE… [--minimal]`,
* `locate TARGET`,
* `watch FILE [--poll-ms N]`.

`--config PATH` and `--verbose` (short `-c` and `-v`) may stand on both sides of
the command; given on both, the one behind the command counts. On one side an
option is given once. A value follows its option as the next word, after `=`, or
directly after the letter of the option; letters may be joined (`-vc x`). Behind
`--` every word is an operand.
-/

namespace ScriptDesk

/-- What the program is asked to do. -/
inductive Task where
  | analyze (files : List String) (minimal : Bool)
  | locate (target : String)
  | watch (file : String) (pollMs : Nat)
deriving DecidableEq, Repr, Inhabited

/-- The command line as it was understood. -/
structure Invocation where
  /-- The configuration file that was asked for. -/
  config : Option String
  verbose : Bool
  task : Task
deriving DecidableEq, Repr, Inhabited

/-- The options of the program. -/
inductive OptionName where
  | config
  | verbose
  | help
  | version
  | minimal
  | pollMs
deriving DecidableEq, Repr, Inhabited

/-- Why a command line asks for nothing that the program can do. -/
inductive UsageError where
  | helpWanted
  | versionWanted
  | noCommand
  | unknownCommand (word : String)
  | unknownOption (name : String)
  | missingValue (option : OptionName)
  | surplusValue (option : OptionName)
  | repeatedOption (option : OptionName)
  | emptyPath
  | noNumber (word : String)
  | surplusOperand (word : String)
  | missingOperand
deriving DecidableEq, Repr, Inhabited

namespace CommandLine

/-! ## Levels -/

/-- Where on the command line a word stands: in front of the command, or behind
one of them. -/
inductive Level where
  | top
  | analyze
  | locate
  | watch
deriving DecidableEq, Repr, Inhabited

/-- How an option is written. -/
structure OptionForm where
  name : OptionName
  long : String
  short : Option Char
  takesValue : Bool
deriving Repr, Inhabited

/-- The options known everywhere. -/
def commonOptions : List OptionForm :=
  [⟨.config, "config", some 'c', true⟩, ⟨.verbose, "verbose", some 'v', false⟩,
    ⟨.help, "help", some 'h', false⟩]

/-- The options known at a level. -/
def Level.options : Level → List OptionForm
  | .top => ⟨.version, "version", some 'V', false⟩ :: commonOptions
  | .analyze => ⟨.minimal, "minimal", none, false⟩ :: commonOptions
  | .locate => commonOptions
  | .watch => ⟨.pollMs, "poll-ms", none, true⟩ :: commonOptions

/-- The level behind a command. -/
def Level.ofCommand? : String → Option Level
  | "analyze" => some .analyze
  | "locate" => some .locate
  | "watch" => some .watch
  | _ => none

/-! ## What was given at a level -/

/-- The options and operands given at one level. -/
structure Given where
  config : Option String := none
  verbose : Bool := false
  minimal : Bool := false
  pollMs : Option Nat := none
  operands : List String := []
deriving DecidableEq, Repr, Inhabited

namespace Given

/-- Takes an option without a value. -/
def takeFlag (g : Given) : OptionName → Except UsageError Given
  | .verbose =>
    if g.verbose then .error (.repeatedOption .verbose) else .ok { g with verbose := true }
  | .minimal =>
    if g.minimal then .error (.repeatedOption .minimal) else .ok { g with minimal := true }
  | .help => .error .helpWanted
  | .version => .error .versionWanted
  | option => .error (.missingValue option)

/-- Takes an option with its value. A path is not empty, and a time is a number
of 64 bits. -/
def takeValue (g : Given) (option : OptionName) (value : String) : Except UsageError Given :=
  match option with
  | .config =>
    if g.config.isSome then .error (.repeatedOption .config)
    else if value = "" then .error .emptyPath
    else .ok { g with config := some value }
  | .pollMs =>
    if g.pollMs.isSome then .error (.repeatedOption .pollMs)
    else
      match Text.natural? UInt64.size value.toList with
      | some n => .ok { g with pollMs := some n }
      | none => .error (.noNumber value)
  | option => .error (.surplusValue option)

/-- Takes an operand. Files have names, and only `analyze` takes more than one. -/
def takeOperand (g : Given) (level : Level) (word : String) : Except UsageError Given :=
  match level, g.operands with
  | .analyze, _ | .watch, [] =>
    if word = "" then .error .emptyPath else .ok { g with operands := g.operands ++ [word] }
  | .locate, [] => .ok { g with operands := [word] }
  | _, _ => .error (.surplusOperand word)

/-- Takes an option written with its long name. Answers also the option whose
value is awaited. -/
def takeLong (g : Given) (level : Level) (name : String) (value : Option String) :
    Except UsageError (Given × Option OptionName) :=
  match level.options.find? (·.long == name) with
  | none => .error (.unknownOption name)
  | some form =>
    match form.takesValue, value with
    | true, some value => do return (← g.takeValue form.name value, none)
    | true, none => .ok (g, some form.name)
    | false, none => do return (← g.takeFlag form.name, none)
    | false, some _ => .error (.surplusValue form.name)

/-- Takes options written as joined letters. A letter whose option takes a value
ends them: what follows is the value, without an `=` in front. Answers also the
option whose value is awaited. -/
def takeLetters (level : Level) : Given → List Char →
    Except UsageError (Given × Option OptionName)
  | g, [] => .ok (g, none)
  | g, c :: more =>
    match level.options.find? (·.short == some c) with
    | none => .error (.unknownOption (String.singleton c))
    | some form =>
      if form.takesValue then
        match more with
        | [] => .ok (g, some form.name)
        | '=' :: value => do return (← g.takeValue form.name (String.ofList value), none)
        | value => do return (← g.takeValue form.name (String.ofList value), none)
      else do takeLetters level (← g.takeFlag form.name) more

end Given

/-! ## Words -/

/-- The forms of a word. -/
inductive Word where
  /-- `--`: operands follow. -/
  | escape
  | long (name : String) (value : Option String)
  | letters (cs : List Char)
  | operand (text : String)
deriving DecidableEq, Repr

/-- The form of a word. A single dash is an operand. -/
def Word.ofString (word : String) : Word :=
  match word.toList with
  | ['-', '-'] => .escape
  | '-' :: '-' :: rest =>
    match rest.span (· ≠ '=') with
    | (name, _ :: value) => .long (String.ofList name) (some (String.ofList value))
    | (name, []) => .long (String.ofList name) none
  | '-' :: c :: rest => .letters (c :: rest)
  | _ => .operand word

/-- Reads the words of a level, while the value of an option is `awaiting` or not.
In front of the command the first operand ends the level: it and the words behind
it are answered too. -/
def readLevel (level : Level) : (awaiting : Option OptionName) → Given → List String →
    Except UsageError (Given × List String)
  | none, g, [] => .ok (g, [])
  | some option, _, [] => .error (.missingValue option)
  | some option, g, word :: rest =>
    match Word.ofString word with
    | .operand value => do readLevel level none (← g.takeValue option value) rest
    | _ => .error (.missingValue option)
  | none, g, word :: rest =>
    match Word.ofString word with
    | .escape => do return (← rest.foldlM (·.takeOperand level) g, [])
    | .long name value => do
      let (g, awaiting) ← g.takeLong level name value
      readLevel level awaiting g rest
    | .letters cs => do
      let (g, awaiting) ← g.takeLetters level cs
      readLevel level awaiting g rest
    | .operand text =>
      if level = .top then .ok (g, word :: rest)
      else do readLevel level none (← g.takeOperand level text) rest

/-! ## The whole command line -/

/-- The time between two looks at a watched file, in milliseconds, unless another
is given. -/
def defaultPollMs : Nat := 200

/-- The task that a level asks for. -/
def Given.task (g : Given) : Level → Except UsageError Task
  | .analyze =>
    if g.operands.isEmpty then .error .missingOperand
    else .ok (.analyze g.operands g.minimal)
  | .locate =>
    match g.operands with
    | target :: _ => .ok (.locate target)
    | [] => .error .missingOperand
  | .watch =>
    match g.operands with
    | file :: _ => .ok (.watch file (g.pollMs.getD defaultPollMs))
    | [] => .error .missingOperand
  | .top => .error .noCommand

/-- The words behind the command `help` name a command, or nothing. -/
def helpOn : List String → UsageError
  | [] => .helpWanted
  | [word] =>
    if (Level.ofCommand? word).isSome || word = "help" then .helpWanted else .unknownCommand word
  | _ :: word :: _ => .unknownCommand word

/-- Reads the words behind the name of the program. -/
def parse (words : List String) : Except UsageError Invocation := do
  let (outer, rest) ← readLevel .top none {} words
  match rest with
  | [] => .error .noCommand
  | command :: rest =>
    match Level.ofCommand? command with
    | some level => do
      let (inner, _) ← readLevel level none {} rest
      let task ← inner.task level
      return {
        config := inner.config <|> outer.config
        verbose := outer.verbose || inner.verbose
        task }
    | none => .error (if command = "help" then helpOn rest else .unknownCommand command)

end CommandLine

end ScriptDesk
