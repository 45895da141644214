import GodotLint.CommandLine.Switch

/-!
# Reading the command line

Arguments are read from left to right. A switch that takes a value waits for the next argument, and
the value is looked at when the next switch or operand is met, or at the end; of several faults the
first one in this order is reported. What a command is given is checked before what stands in front
of it.
-/

namespace GodotLint.CommandLine

open Text

/-- Why the arguments are no invocation. -/
inductive UsageFault where
  | help
  /-- Nothing at all is given. -/
  | nothing
  | version
  | noCommand
  | unknownCommand
  | unknownArgument
  | noValue
  | badValue
  | repeatedOrExcluded
  | surplusValue
  | noOperand
  deriving DecidableEq, Repr

/-- The exit code of the program. Help that is asked for is no failure. -/
def UsageFault.exitCode : UsageFault → Nat
  | .help => 0
  | .version => 0
  | _ => 2

/-! ## Values -/

/-- The largest number of 64 bits. -/
def maxNatural : Nat := Nat.pow 2 64 - 1

/-- A natural number of 64 bits in decimal digits, with or without a plus sign. -/
def natural? (s : List Char) : Option Nat :=
  let digits := match s with
    | '+' :: rest => rest
    | _ => s
  if digits.isEmpty || !digits.all Char.isDigit then none
  else
    let n := digits.foldl (fun n c => 10 * n + (c.toNat - '0'.toNat)) 0
    if n ≤ maxNatural then some n else none

/-- The fault of a value. -/
def ValueKind.fault? (k : ValueKind) (value : String) : Option UsageFault :=
  match k with
  | .text => none
  | .path => if value.isEmpty then some .noValue else none
  | .natural => if (natural? value.toList).isSome then none else some .badValue

/-! ## What a level is given -/

/-- What one level is given. -/
structure Given where
  /-- The switches with their values, which are empty for those that take none. -/
  switches : List (Switch × String) := []
  operand : Option String := none
  deriving DecidableEq, Repr

namespace Given

/-- Whether a switch is given. -/
def has (g : Given) (s : Switch) : Bool := g.switches.any (·.1 == s)

/-- The value of a switch. -/
def value? (g : Given) (s : Switch) : Option String := g.switches.lookup s

/-- Adds a switch, which must not be there yet unless it counts. -/
def add (g : Given) (s : Switch) (value : String) : Except UsageFault Given :=
  if s.form != .counted && g.has s then .error .repeatedOrExcluded
  else
    let fault? := match s.form with
      | .value kind => kind.fault? value
      | _ => none
    match fault? with
    | some fault => .error fault
    | none => .ok { g with switches := g.switches ++ [(s, value)] }

end Given

/-! ## One argument after another -/

/-- How far a level is read. -/
structure Progress where
  given : Given := {}
  /-- A switch whose value is awaited, or was not looked at yet. -/
  pending : Option (Switch × Option String) := none
  /-- Switches are not told any more. -/
  operandsOnly : Bool := false
  deriving DecidableEq, Repr

namespace Progress

/-- Whether the next argument may be the value of a switch. -/
def isAwaiting (p : Progress) : Bool := (p.pending.map (·.2)) == some none

/-- Looks at the value that is pending. -/
def settle (p : Progress) : Except UsageFault Progress :=
  match p.pending with
  | none => .ok p
  | some (_, none) => .error .noValue
  | some (s, some value) => do return { p with given := ← p.given.add s value, pending := none }

/-- Takes a switch in with its value. -/
def add (p : Progress) (s : Switch) (value : String) : Except UsageFault Progress := do
  let p ← p.settle
  return { p with given := ← p.given.add s value }

/-- Awaits the value of a switch. -/
def await (p : Progress) (s : Switch) : Except UsageFault Progress := do
  return { ← p.settle with pending := some (s, none) }

/-- Takes in a switch that stands alone. -/
def raise (p : Progress) (s : Switch) : Except UsageFault Progress :=
  match s with
  | .help => do
    let _ ← p.settle
    throw .help
  | .version => do
    let _ ← p.settle
    throw .version
  | s => p.add s ""

/-- Reads a switch by its long name, with a value if one is attached. -/
def readLong (level : Level) (p : Progress) (name : List Char) (attached : Option (List Char)) :
    Except UsageFault Progress :=
  match level.ofName? (str name) with
  | none => .error .unknownArgument
  | some s =>
    match s.form, attached with
    | .value _, some value => p.add s (str value)
    | .value _, none => p.await s
    | _, some _ => .error .surplusValue
    | _, none => p.raise s

/-- Reads switches by their short names. What follows one that takes a value is the value. -/
def readShort (level : Level) (p : Progress) : List Char → Except UsageFault Progress
  | [] => .ok p
  | c :: rest =>
    match level.ofShort? c with
    | none => .error .unknownArgument
    | some s =>
      match s.form, rest with
      | .value _, [] => p.await s
      | .value _, '=' :: value => p.add s (str value)
      | .value _, value => p.add s (str value)
      | _, _ => do readShort level (← p.raise s) rest

/-- The fault of a word that has no place. -/
def strayFault (level : Level) (p : Progress) (word : String) : UsageFault :=
  match level with
  | .outer => if p.operandsOnly && Verb.isName word then .unknownArgument else .unknownCommand
  | .inner _ => .unknownArgument

/-- Reads a word that is no switch: the value that is awaited, or the operand. -/
def readWord (level : Level) (p : Progress) (word : String) : Except UsageFault Progress :=
  match p.pending, p.operandsOnly with
  | some (s, none), false => .ok { p with pending := some (s, some word) }
  | _, _ =>
    if level.takesOperand && p.given.operand.isNone then do
      let p ← p.settle
      return { p with given.operand := some word }
    else .error (strayFault level p word)

/-- Reads an argument that is no command. -/
def readArgument (level : Level) (p : Progress) (argument : String) : Except UsageFault Progress :=
  if p.operandsOnly then p.readWord level argument
  else
    match argument.toList with
    | ['-', '-'] => .ok { p with operandsOnly := true }
    | '-' :: '-' :: long =>
      match cutAt? ['='] long with
      | some (name, value) => p.readLong level name (some value)
      | none => p.readLong level long none
    | '-' :: c :: short => p.readShort level (c :: short)
    | _ => p.readWord level argument

end Progress

/-! ## Whole command lines -/

/-- The switches of which at most one is given. -/
def exclusive : List Switch := [.json, .markdown, .sarif]

/-- Checks what a level is given once all of it is read. -/
def finish (level : Level) (p : Progress) : Except UsageFault Given := do
  let p ← p.settle
  match level with
  | .outer => throw (if p.given.switches.isEmpty then .nothing else .noCommand)
  | .inner _ =>
    if 1 < exclusive.countP p.given.has then throw .repeatedOrExcluded
    else if level.takesOperand && p.given.operand.isNone then throw .noOperand
    else return p.given

/-- Reads the arguments behind a command. -/
def readInner (verb : Verb) (p : Progress) : List String → Except UsageFault Given
  | [] => finish (.inner verb) p
  | argument :: rest => do readInner verb (← p.readArgument (.inner verb) argument) rest

/-- What a whole command line gives. -/
structure Reading where
  verb : Verb
  /-- What stands before the command. -/
  outer : Given
  /-- What stands behind the command. -/
  inner : Given
  deriving DecidableEq, Repr

/-- The fault of a command line that asks for help on some words: help, if they name a command. -/
def helpOn : List String → UsageFault
  | [] => .help
  | [word] => if Verb.isName word then .help else .unknownCommand
  | _ => .unknownCommand

/-- Reads arguments up to a command and behind it. -/
def readOuter (p : Progress) : List String → Except UsageFault Reading
  | [] => do
    let _ ← finish .outer p
    throw .noCommand
  | argument :: rest =>
    if !p.operandsOnly && !p.isAwaiting && argument == Verb.helpName then .error (helpOn rest)
    else
      match if p.operandsOnly || p.isAwaiting then none else Verb.ofName? argument with
      | some verb => do
        let inner ← readInner verb {} rest
        let p ← p.settle
        return { verb, outer := p.given, inner }
      | none => do readOuter (← p.readArgument .outer argument) rest

end GodotLint.CommandLine
