import GodotLint.CommandLine.Invocation
import GodotLint.Config.Validity
import GodotLint.Fix.Project
import GodotLint.Report.Render

/-!
# Commands

A command works on a disk. It prints, it may write files, and it ends with an exit code; a command
that fails says why, and what it wrote before stays written.
-/

namespace GodotLint

open Report

/-- How a command ends. -/
structure CommandResult where
  /-- The disk after the command. -/
  disk : Disk
  /-- What it prints. -/
  output : String := ""
  /-- What it prints for the user only. -/
  notes : String := ""
  /-- The reasons for which it failed, the last one being the root of the others. -/
  failure : Option (List String) := none
  exitCode : Nat := 0

namespace CommandResult

/-- The exit code of a command that cannot do what it is asked for. -/
def errorCode : Nat := 1

/-- A command that failed. -/
def failed (disk : Disk) (reasons : List String) : CommandResult :=
  { disk, failure := some reasons, exitCode := errorCode }

/-- A command that was asked for something that is not there. -/
def refused (disk : Disk) (notes : List String) : CommandResult :=
  { disk, notes := String.join (notes.map line), exitCode := errorCode }

/-- The result, or that of a command that failed. -/
def ofExcept (disk : Disk) : Except (List String) CommandResult → CommandResult
  | .ok r => r
  | .error reasons => failed disk reasons

end CommandResult

/-- The reasons for a fault of an input, the last one being the root of the others. -/
def InputFault.reasons (f : InputFault) : List String :=
  match f with
  | .unreadable _ reason => [f.message, reason]
  | _ => [f.message]

namespace Invocation

/-- The root of the project: the given one, or that of the project in which the program works, or
the directory in which it works. -/
def rootOn (i : Invocation) (d : Disk) : String :=
  i.root.getD ((d.findRoot? d.currentPath).getD d.currentPath)

/-- Loads the project with a configuration that is fit for use. -/
def loadProject (i : Invocation) (d : Disk) : Except (List String) Project := do
  let root := i.rootOn d
  let config ← (Config.load d root i.config).mapError (·.reasons)
  match config.fault? with
  | some fault => throw ["invalid config", fault.message]
  | none => (Project.load d root config).mapError (·.reasons)

end Invocation

/-! ## Reports -/

/-- A text that ends with a line end. -/
def endLine (s : String) : String := if s.toList.getLast? == some '\n' then s else line s

/-- Delivers a report: prints it, or writes it to a file and prints the one for a terminal. -/
def ReportTarget.deliver (t : ReportTarget) (d : Disk) (render : Format → String) :
    Except (List String) CommandResult :=
  match t.file with
  | none => .ok { disk := d, output := endLine (render t.format) }
  | some path =>
    match d.write path (Text.encode (render t.format).toList) with
    | .ok disk => .ok { disk, output := endLine (render .text) }
    | .error fault => .error ["writing " ++ path, fault.message]

/-! ## Fixes -/

/-- The lines that tell of a changed line. -/
def LineChange.lines (c : LineChange) : List String :=
  let number := "  " ++ padLeft 5 (toString c.line)
  let shown (s : List Char) : String := str (Text.trimEnd s)
  [number ++ " - " ++ shown c.before,
    match c.after with
    | some after => number ++ " + " ++ shown after
    | none => number ++ "   (removed)"]

/-- The lines that tell of a changed script. -/
def FixedFile.lines (f : FixedFile) : List String :=
  f.file :: f.fixed.changes.flatMap (·.lines)

/-- The lines that tell of changed scripts. -/
def FixedFile.summary (files : List FixedFile) (isDryRun : Bool) : List String :=
  let changes := sumOf (·.fixed.changes.length) files
  files.flatMap (·.lines) ++
    [toString changes ++ " line(s) changed in " ++ toString files.length ++ " file(s)" ++
      if isDryRun then " (dry run)" else ""]

/-! ## The list of checks -/

/-- A row of the list of checks. -/
def listRow (id category quick metric : String) : String :=
  padRight 22 id ++ " " ++ padRight 15 category ++ " " ++ padRight 6 quick ++ " " ++ metric

/-- The list of checks. -/
def checkList : List String :=
  listRow "ID" "CATEGORY" "QUICK" "METRIC" :: Check.all.map fun c =>
    listRow c.id c.category.name (if c.isQuick then "yes" else "") c.threshold.metric

/-! ## Dispatch -/

namespace Invocation

/-- What is said of a name that is not known. -/
def unknown (what name : String) : String :=
  "Error: unknown " ++ what ++ " " ++ Text.quotedString name

/-- Runs a check. -/
def runCheck (i : Invocation) (d : Disk) (id : String) (target : ReportTarget) (ci : Bool)
    (layer : Option String) (options : Options) : CommandResult :=
  match Check.find? id, layer.map fun name => (name, Layer.ofName? name) with
  | none, _ =>
    .refused d [unknown "check" id, "Run '" ++ toolName ++ " list' to see available checks"]
  | _, some (name, none) => .refused d [unknown "layer" name]
  | some check, found =>
    .ofExcept d do
      let project ← i.loadProject d
      let run := Run.single check (project.config.timeoutSecs * 1000)
        { project, options := { options with layer := found.bind (·.2) } }
      let result ← target.deliver d (run.render false)
      return { result with exitCode := if ci && run.status = .fail then 1 else 0 }

/-- Runs a suite. -/
def runSuite (i : Invocation) (d : Disk) (now : String) (target : ReportTarget) (mode : SuiteMode)
    (strict : Bool) (timeoutSecs : Option Nat) (ci : Bool) : CommandResult :=
  .ofExcept d do
    let project ← i.loadProject d
    let timeout := timeoutSecs.getD project.config.timeoutSecs
    let suite := Suite.run project mode strict (timeout * 1000) now
    let result ← target.deliver d (suite.render false)
    return { result with exitCode := suite.exitCode ci }

/-- Applies a fixer. -/
def runFix (i : Invocation) (d : Disk) (fixer : String) (file : Option String) (isDryRun : Bool) :
    CommandResult :=
  match Fixer.find? fixer with
  | none =>
    .refused d [unknown "fixer" fixer,
      "Available fixers: " ++ joinWith ", " (Fixer.all.map (·.id))]
  | some f =>
    match i.loadProject d with
    | .error reasons => .failed d reasons
    | .ok project =>
      match d.fix f project file isDryRun with
      | (disk, .ok files) =>
        { disk, output := String.join ((FixedFile.summary files isDryRun).map line) }
      | (disk, .error fault) => .failed disk fault.reasons

/-- Does on a disk what the user wants; `now` is the time that reports show. -/
def dispatch (i : Invocation) (d : Disk) (now : String) : CommandResult :=
  match i.command with
  | .check id target file strict threshold layer ci =>
    i.runCheck d id target ci layer { strict, file, threshold }
  | .run target mode strict timeoutSecs ci => i.runSuite d now target mode strict timeoutSecs ci
  | .fix fixer file isDryRun => i.runFix d fixer file isDryRun
  | .list => { disk := d, output := String.join (checkList.map line) }

end Invocation

end GodotLint
