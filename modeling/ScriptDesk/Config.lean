import ScriptDesk.Schedule.Policy
import ScriptDesk.Toml.Document

/-!
# ScriptDesk.Config

The configuration, and reading it from a TOML document. Every setting has a
default, so an empty document is a configuration:

```toml
[analysis]
enabled = true
typing_delay_ms = 4000
save_delay_ms = 1000
structural_delay_ms = 1000
local_delay_ms = 500

[navigation]
coalesce_lines = 1
```

A setting that is not known is an error. A section may also be written as an
array; its items then stand for the settings in the order above.
-/

namespace ScriptDesk

/-- When and how documents are analyzed. The delays are in milliseconds. -/
structure AnalysisSettings where
  /-- Run full passes. When off, only the names are looked for. -/
  enabled : Bool := true
  typingDelay : Nat := 4000
  saveDelay : Nat := 1000
  structuralDelay : Nat := 1000
  /-- The delay for the names alone. -/
  localDelay : Nat := 500
deriving DecidableEq, Repr, Inhabited

/-- How caret moves are recorded. -/
structure NavigationSettings where
  /-- Moves of at most this many lines coalesce. -/
  coalesceLines : Nat := 1
deriving DecidableEq, Repr, Inhabited

/-- The configuration. -/
structure Config where
  analysis : AnalysisSettings := {}
  navigation : NavigationSettings := {}
deriving DecidableEq, Repr, Inhabited

/-- Why a text is no configuration. -/
inductive ConfigError where
  /-- It is no TOML document, or not one with these settings. -/
  | unreadable
  /-- Without a delay after typing there would be a pass for every keystroke. -/
  | zeroTypingDelay
deriving DecidableEq, Repr, Inhabited

/-- The wording of an error. -/
def ConfigError.message : ConfigError → String
  | .unreadable => "TOML parse error"
  | .zeroTypingDelay =>
    "invalid configuration: analysis.typing_delay_ms must be greater than zero"

/-- The delays of the configuration. -/
def AnalysisSettings.policy (s : AnalysisSettings) : Policy :=
  { typing := milliseconds s.typingDelay
    save := milliseconds s.saveDelay
    structural := milliseconds s.structuralDelay
    names := milliseconds s.localDelay }

namespace Config

open Toml (Value Table)

/-! ## Reading settings -/

/-- The settings of a section by their names. A table names its settings itself,
each of which has to be known. The items of an array stand for the known settings
in order, and surplus items for none. -/
def settings? (known : List String) : Value → Option (List (String × Value))
  | .table _ entries => if entries.all (known.contains ·.1) then some entries else none
  | .array items => some (known.zip items)
  | .tables latestFirst => some (known.zip latestFirst.reverse)
  | _ => none

/-- Reads a truth value. -/
def boolean? : Value → Option Bool
  | .boolean b => some b
  | _ => none

/-- Reads a natural number less than `bound`. -/
def natural? (bound : Nat) : Value → Option Nat
  | .integer (some n) => if 0 ≤ n && n < bound then some n.toNat else none
  | _ => none

/-- Reads a setting, or takes its default when it is missing. -/
def setting? {α : Type} (settings : List (String × Value)) (name : String)
    (read? : Value → Option α) (default : α) : Option α :=
  match settings.lookup name with
  | some value => read? value
  | none => some default

/-- The names of the settings in the section `analysis`. -/
def analysisNames : List String :=
  ["enabled", "typing_delay_ms", "save_delay_ms", "structural_delay_ms", "local_delay_ms"]

/-- Reads the section `analysis`. Delays have 64 bits. -/
def analysis? (section_ : Value) : Option AnalysisSettings := do
  let settings ← settings? analysisNames section_
  let delay? (name : String) (default : Nat) :=
    setting? settings name (natural? UInt64.size) default
  let defaults : AnalysisSettings := {}
  return {
    enabled := ← setting? settings "enabled" boolean? defaults.enabled
    typingDelay := ← delay? "typing_delay_ms" defaults.typingDelay
    saveDelay := ← delay? "save_delay_ms" defaults.saveDelay
    structuralDelay := ← delay? "structural_delay_ms" defaults.structuralDelay
    localDelay := ← delay? "local_delay_ms" defaults.localDelay }

/-- Reads the section `navigation`. A number of lines has 32 bits. -/
def navigation? (section_ : Value) : Option NavigationSettings := do
  let settings ← settings? ["coalesce_lines"] section_
  let defaults : NavigationSettings := {}
  return {
    coalesceLines :=
      ← setting? settings "coalesce_lines" (natural? UInt32.size) defaults.coalesceLines }

/-- Reads the sections of a document. -/
def ofTable? (document : Table) : Option Config := do
  let sections ← settings? ["analysis", "navigation"] document.toValue
  return {
    analysis := ← setting? sections "analysis" analysis? {}
    navigation := ← setting? sections "navigation" navigation? {} }

/-- The configuration keeps the scheduling sound. -/
def check (c : Config) : Except ConfigError Config :=
  if c.analysis.typingDelay = 0 then .error .zeroTypingDelay else .ok c

/-- Reads a configuration. -/
def ofToml (text : String) : Except ConfigError Config :=
  match (Toml.document? text).bind ofTable? with
  | some c => c.check
  | none => .error .unreadable

/-- A configuration that was read has a delay after typing. -/
theorem typingDelay_pos_of_ofToml {text : String} {c : Config} (h : ofToml text = .ok c) :
    0 < c.analysis.typingDelay := by
  unfold ofToml at h
  split at h
  · unfold check at h
    split at h
    · cases h
    · cases h; omega
  · cases h

end Config

end ScriptDesk
