import GodotLint.CommandLine.Reading

/-!
# Invocations

An invocation is what the user wants: a command with its options, the root of the project and the
configuration. It is made from the arguments of the program.
-/

namespace GodotLint

/-- Where a report goes, and in which form. -/
structure ReportTarget where
  format : Format
  /-- The file that the report is written to. -/
  file : Option String
  deriving DecidableEq, Repr

/-- A command with its options. -/
inductive Command where
  /-- Run one check. -/
  | check (id : String) (target : ReportTarget) (file : Option String) (strict : Bool)
      (threshold : Option Nat) (layer : Option String) (ci : Bool)
  /-- Run a suite. -/
  | run (target : ReportTarget) (mode : SuiteMode) (strict : Bool) (timeoutSecs : Option Nat)
      (ci : Bool)
  /-- Apply a fixer. -/
  | fix (fixer : String) (file : Option String) (isDryRun : Bool)
  /-- List the checks. -/
  | list
  deriving DecidableEq, Repr

/-- What the user wants. -/
structure Invocation where
  root : Option String
  /-- The file of the configuration. -/
  config : Option String
  command : Command
  deriving DecidableEq, Repr

namespace CommandLine

/-- The form of a report that switches choose. -/
def Given.format (g : Given) : Format :=
  if g.has .json then .json
  else if g.has .markdown then .markdown
  else if g.has .sarif then .sarif
  else .text

/-- The target of a report that switches choose. -/
def Given.target (g : Given) : ReportTarget := ⟨g.format, g.value? .output⟩

/-- The number that a switch is given. -/
def Given.number? (g : Given) (s : Switch) : Option Nat := (g.value? s).bind (natural? ·.toList)

/-- The command that a word and what stands behind it make. -/
def Given.command (g : Given) : Verb → Command
  | .check =>
    .check (g.operand.getD "") g.target (g.value? .file) (g.has .strict) (g.number? .threshold)
      (g.value? .layer) (g.has .ci)
  | .run =>
    .run g.target (if g.has .quick then .quick else .full) (g.has .strict) (g.number? .timeout)
      (g.has .ci)
  | .fix => .fix (g.operand.getD "") (g.value? .file) (g.has .dryRun)
  | .list => .list

/-- The invocation that was read. What stands behind the command goes before what stands in front
of it. -/
def Reading.invocation (r : Reading) : Invocation where
  root := r.inner.value? .root <|> r.outer.value? .root
  config := r.inner.value? .config <|> r.outer.value? .config
  command := r.inner.command r.verb

end CommandLine

/-- The invocation that arguments make. -/
def Invocation.ofArguments (arguments : List String) : Except CommandLine.UsageFault Invocation :=
  (CommandLine.readOuter {} arguments).map (·.invocation)

end GodotLint
