import GodotLint.Check.Basic

/-!
# Check of debug output

Calls that print, in scripts other than tests.
-/

namespace GodotLint.Check

open Text

open Pattern in
/-- A call of one of the given functions, its name as group 1. -/
def callOf (names : List String) : Pattern :=
  .wordEdge ++ .group 1 (word names) ++ blanks ++ .char '('

/-- Calls that print. -/
def printCall : Pattern := callOf ["print", "prints", "printt", "print_debug", "print_rich"]

/-- Calls that report to the debugger. -/
def pushCall : Pattern := callOf ["push_error", "push_warning"]

/-- The names that a pattern finds in a line of code, outside literals. -/
def callsIn (p : Pattern) (code : List Char) : List String :=
  (p.findAll code).filterMap fun m =>
    (m.group? 1).bind fun name =>
      if Line.isInsideLiteral code name.start then none else some name.text

/-- The issue of a call that prints. -/
def printIssue (file : String) (line : Nat) (name : String) : Issue :=
  { check := "print_statements", file, line, kind := "print_statement"
    message := name ++ "() left in " ++ file
    severity := .warning
    suggestion := some "remove it or route through a logger" }

/-- The issue of a call that reports to the debugger. -/
def pushIssue (file : String) (line : Nat) (name : String) : Issue :=
  { check := "print_statements", file, line, kind := "push_message"
    message := name ++ "() reports to the debugger output"
    severity := .info }

/-- The calls on a line and their issues. -/
def outputOfLine (strict : Bool) (file : String) (raw : List Char) (line : Nat) :
    List (String × Issue) :=
  let code := Line.code raw
  (callsIn printCall code).map (fun name => (name, printIssue file line name)) ++
    if strict then (callsIn pushCall code).map fun name => (name, pushIssue file line name) else []

/-- Scripts do not print. -/
def printStatements : Check where
  id := "print_statements"
  name := "Print statements"
  category := .maintenance
  isQuick := true
  threshold := { metric := "summary.prints" }
  run c :=
    let (tests, scripts) := c.scripts.partition (·.source.isTest)
    let calls := scripts.flatMap fun s =>
      (s.source.lines.zipIdx 1).flatMap fun (raw, line) =>
        outputOfLine c.options.strict s.path raw line
    let issues := calls.map (·.2)
    .finished
      { summary := .ofList [
          ("prints", countKind "print_statement" issues),
          ("push_messages", countKind "push_message" issues),
          ("skipped_test_files", .nat tests.length),
          ("by_function", .counts (tally (calls.map (·.1))))]
        issues }

end GodotLint.Check
