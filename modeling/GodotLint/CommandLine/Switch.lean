import GodotLint.Report.Basic

/-!
# The words of the command line

The switches and commands that the program knows, what follows each switch, and which of them belong
together on one level: before the command, or behind it.
-/

namespace GodotLint.CommandLine

/-! ## Switches -/

/-- A switch. -/
inductive Switch where
  | root
  | config
  | verbose
  | json
  | markdown
  | sarif
  | output
  | file
  | strict
  | threshold
  | layer
  | ci
  | quick
  | timeout
  | dryRun
  | help
  | version
  deriving DecidableEq, Repr

/-- What a value must be. -/
inductive ValueKind where
  | text
  /-- A path, which is not empty. -/
  | path
  /-- A natural number of 64 bits. -/
  | natural
  deriving DecidableEq, Repr

/-- How a switch is written. -/
inductive SwitchForm where
  /-- Alone, once. -/
  | flag
  /-- Alone, as often as wanted. -/
  | counted
  /-- With a value, once. -/
  | value (kind : ValueKind)
  deriving DecidableEq, Repr

namespace Switch

/-- The long name. -/
def name : Switch → String
  | .root => "root"
  | .config => "config"
  | .verbose => "verbose"
  | .json => "json"
  | .markdown => "markdown"
  | .sarif => "sarif"
  | .output => "output"
  | .file => "file"
  | .strict => "strict"
  | .threshold => "threshold"
  | .layer => "layer"
  | .ci => "ci"
  | .quick => "quick"
  | .timeout => "timeout"
  | .dryRun => "dry-run"
  | .help => "help"
  | .version => "version"

/-- The name of one character. -/
def short? : Switch → Option Char
  | .verbose => some 'v'
  | .output => some 'o'
  | .help => some 'h'
  | .version => some 'V'
  | _ => none

/-- The form of the switch. -/
def form : Switch → SwitchForm
  | .root | .config | .output => .value .path
  | .file | .layer => .value .text
  | .threshold | .timeout => .value .natural
  | .verbose => .counted
  | _ => .flag

end Switch

/-! ## Commands -/

/-- A command. -/
inductive Verb where
  | check
  | run
  | fix
  | list
  deriving DecidableEq, Repr

namespace Verb

/-- The word for a command. -/
def name : Verb → String
  | .check => "check"
  | .run => "run"
  | .fix => "fix"
  | .list => "list"

/-- Every command. -/
def all : List Verb := [.check, .run, .fix, .list]

/-- The command of a word. -/
def ofName? (name : String) : Option Verb := all.find? (·.name == name)

/-- The word that asks for help on a command. -/
def helpName : String := "help"

/-- Whether a word stands for a command. -/
def isName (word : String) : Bool := word == helpName || (ofName? word).isSome

end Verb

/-! ## Levels -/

/-- A part of the command line: what stands before the command, or what stands behind it. -/
inductive Level where
  | outer
  | inner (verb : Verb)
  deriving DecidableEq, Repr

namespace Level

/-- The switches of every level. -/
def shared : List Switch := [.root, .config, .verbose, .help]

/-- The switches that choose the form and the place of a report. -/
def reporting : List Switch := [.json, .markdown, .sarif, .output]

/-- The switches of a level. -/
def switches : Level → List Switch
  | .outer => shared ++ [.version]
  | .inner .check => shared ++ reporting ++ [.file, .strict, .threshold, .layer, .ci]
  | .inner .run => shared ++ reporting ++ [.quick, .ci, .strict, .timeout]
  | .inner .fix => shared ++ [.file, .dryRun]
  | .inner .list => shared

/-- Whether a word that is no switch belongs to the level. -/
def takesOperand : Level → Bool
  | .inner .check | .inner .fix => true
  | _ => false

/-- The switch of a long name. -/
def ofName? (l : Level) (name : String) : Option Switch := l.switches.find? (·.name == name)

/-- The switch of a short name. -/
def ofShort? (l : Level) (c : Char) : Option Switch := l.switches.find? (·.short? == some c)

end Level

end GodotLint.CommandLine
