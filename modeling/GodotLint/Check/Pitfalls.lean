import GodotLint.Pitfall.Table

/-!
# Check of pitfalls

Every line of code is held against the table of pitfalls. Headers of functions and lines without
code are left out.
-/

namespace GodotLint.Check

open Text

/-- The pitfalls that are looked for. -/
def activePitfalls (strict : Bool) : List Pitfall :=
  Pitfall.all.filter fun p => strict || p.group != .strict

/-- Whether a line of code is looked at: it is not empty and no header of a function. -/
def isScanned (code : List Char) : Bool :=
  let trimmed := trimStart code
  !trimmed.isEmpty && !startsWith "func ".toList trimmed &&
    !startsWith "static func ".toList trimmed

/-- The issue of a pitfall. -/
def pitfallIssue (file : String) (line : Nat) (p : Pitfall) (message : String) : Issue :=
  { check := "godot_patterns", file, line, kind := p.id, message, severity := p.severity
    suggestion := p.suggestion, category := some p.group.name }

/-- The pitfalls on one line of a script. -/
def pitfallsOfLine (active : List Pitfall) (functions : List Function) (raw : List Char)
    (line : Nat) : List (Pitfall × String) :=
  let code := Line.code raw
  if !isScanned code then []
  else
    let function := (Function.enclosing? functions line).map (·.name)
    active.filterMap fun p => (p.messageOn? code function).map fun message => (p, message)

/-- The pitfalls of a script, with their issues. -/
def pitfallsOf (active : List Pitfall) (s : Script) : List (Pitfall × Issue) :=
  (s.source.lines.zipIdx 1).flatMap fun (raw, line) =>
    (pitfallsOfLine active s.facts.functions raw line).map fun (p, message) =>
      (p, pitfallIssue s.path line p message)

/-- The code stays clear of pitfalls. -/
def pitfalls : Check where
  id := "godot_patterns"
  name := "Godot patterns"
  category := .engine
  isQuick := true
  threshold := { metric := "summary.issues" }
  run c :=
    let active := activePitfalls c.options.strict
    let found := c.scripts.flatMap (pitfallsOf active)
    let issues := found.map (·.2)
    .finished
      { summary := .ofList [
          ("rules", .nat active.length),
          ("issues", .nat issues.length),
          ("by_bucket", .counts (tally (found.map (·.1.group.name)))),
          ("by_rule", .counts (tally (found.map (·.1.id)))),
          ("by_severity", severityCounts issues)]
        issues }

end GodotLint.Check
