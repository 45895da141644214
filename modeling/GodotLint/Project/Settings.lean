import GodotLint.Ordering
import GodotLint.Text.Basic

/-!
# Project settings

The engine's project file: sections of `key=value` entries. A value goes on over the following
lines until its brackets are closed. Lines that are neither header nor entry are reported and
skipped.
-/

namespace GodotLint

open Text

/-- A singleton declared in the section `autoload`. -/
structure Autoload where
  name : String
  /-- The resource path, without the mark of a singleton. -/
  path : String
  /-- The path is marked with `*`: the engine creates one instance. -/
  singleton : Bool
  line : Nat
  deriving DecidableEq, Repr

/-- What is wrong with a line of the project file. -/
inductive SettingsFault where
  | unterminatedHeader (line : List Char)
  | missingEquals (line : List Char)
  | emptyKey
  deriving DecidableEq, Repr

/-- The words for a fault. -/
def SettingsFault.message : SettingsFault → String
  | .unterminatedHeader line => "unterminated section header " ++ str (quoted line)
  | .missingEquals line => "expected key=value, found " ++ str (quoted line)
  | .emptyKey => "empty key"

/-- The contents of a project file. -/
structure Settings where
  /-- In the order of declaration. -/
  autoloads : List Autoload := []
  /-- Input actions and their lines, in the order of declaration. -/
  inputActions : List (String × Nat) := []
  /-- The entries of each section; those before the first header are under the empty name. -/
  sections : SortedMap (SortedMap String) := .empty
  /-- Faults and their lines. -/
  faults : List (Nat × SettingsFault) := []
  deriving Repr

namespace Settings

/-- The name of the project file. -/
def fileName : String := "project.godot"

/-- The net number of brackets that a line opens, counting those outside double quotes. -/
def bracketDepthFrom (quoting : Bool) : List Char → Int
  | [] => 0
  | c :: rest =>
    if quoting then
      if c == '\\' then
        match rest with
        | [] => 0
        | _ :: rest => bracketDepthFrom true rest
      else bracketDepthFrom (c != '"') rest
    else
      let change : Int :=
        if c == '\x7b' || c == '[' || c == '(' then 1
        else if c == '\x7d' || c == ']' || c == ')' then -1
        else 0
      change + bracketDepthFrom (c == '"') rest

/-- The net number of brackets that a line opens. -/
def bracketDepth (line : List Char) : Int := bracketDepthFrom false line

/-- An entry whose value is being read. -/
structure OpenEntry where
  line : Nat
  key : List Char
  value : List Char
  /-- Brackets that are open after the lines read so far. -/
  depth : Int
  deriving DecidableEq, Repr

/-- What has been read so far. -/
structure Reading where
  settings : Settings := {}
  /-- The name of the section. -/
  sectionName : String := ""
  /-- The entry that goes on on the next line. -/
  entry : Option OpenEntry := none

/-- The autoload that an entry declares. -/
def autoloadOf (key : String) (value : List Char) (line : Nat) : Autoload :=
  let unquoted := trimWhile (· == '"') value
  { name := key, path := str (unquoted.dropWhile (· == '*'))
    singleton := unquoted.head? == some '*',
    line }

/-- Stores a whole entry. -/
def Reading.store (r : Reading) (e : OpenEntry) : Reading :=
  let r := { r with entry := none }
  if e.key.isEmpty then
    { r with settings.faults := r.settings.faults ++ [(e.line, .emptyKey)] }
  else
    let key := str e.key
    let entries := (r.settings.sections.get? r.sectionName).getD .empty
    let r := { r with
      settings.sections :=
        r.settings.sections.insert r.sectionName (entries.insert key (str e.value)) }
    if r.sectionName == "autoload" then
      { r with settings.autoloads := r.settings.autoloads ++ [autoloadOf key e.value e.line] }
    else if r.sectionName == "input" then
      { r with settings.inputActions := r.settings.inputActions ++ [(key, e.line)] }
    else r

/-- Goes on with an entry, or stores it when its brackets are closed. -/
def Reading.continueWith (r : Reading) (e : OpenEntry) : Reading :=
  if 0 < e.depth then { r with entry := some e } else r.store e

/-- The name in a section header. -/
def headerName? (line : List Char) : Option (List Char) :=
  match line with
  | '[' :: rest => if rest.getLast? == some ']' then some (trim rest.dropLast) else none
  | _ => none

/-- Reads a line that starts a section or an entry. -/
def Reading.readFresh (r : Reading) (raw : List Char) (line : Nat) : Reading :=
  let trimmed := trim raw
  match trimmed with
  | [] => r
  | c :: _ =>
    if c == ';' || c == '#' then r
    else if c == '[' then
      match headerName? trimmed with
      | some name =>
        { r with
          sectionName := str name
          settings.sections := r.settings.sections.insertIfNew (str name) .empty }
      | none =>
        { r with settings.faults := r.settings.faults ++ [(line, .unterminatedHeader trimmed)] }
    else
      match cutAt? ['='] trimmed with
      | none => { r with settings.faults := r.settings.faults ++ [(line, .missingEquals trimmed)] }
      | some (key, value) =>
        let value := trim value
        r.continueWith { line, key := trim key, value, depth := bracketDepth value }

/-- Reads one line. -/
def Reading.readLine (r : Reading) (numbered : List Char × Nat) : Reading :=
  let (raw, line) := numbered
  match r.entry with
  | some e =>
    r.continueWith { e with value := e.value ++ '\n' :: raw, depth := e.depth + bracketDepth raw }
  | none => r.readFresh raw line

/-- Stores the entry that the end of the file leaves open. -/
def Reading.finish (r : Reading) : Settings :=
  match r.entry with
  | some e => (r.store e).settings
  | none => r.settings

/-- The settings that a project file holds. -/
def parse (text : List Char) : Settings :=
  (((lines text).zipIdx 1).foldl Reading.readLine {}).finish

/-- The value of a key in a section. -/
def get? (s : Settings) (sectionName key : String) : Option String :=
  (s.sections.get? sectionName).bind (·.get? key)

end Settings

end GodotLint
