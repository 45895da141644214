import GodotLint.Check.Basic

/-!
# Check of size

Long functions, deeply nested ones and long files.
-/

namespace GodotLint.Check

/-- The lines of a body above which a function is mentioned. -/
def softLimit (strict : Bool) (limits : ComplexityLimits) (maxLines : Nat) : Nat :=
  let soft := min limits.softLines maxLines
  if strict then soft * 2 / 3 else soft

/-- The issue of a long file. -/
def fileSizeIssue? (limits : ComplexityLimits) (s : Script) : Option Issue :=
  let length := s.source.lines.length
  if limits.maxFileLines < length then some
    { check := "complexity", file := s.path, line := 1, kind := "long_file"
      message := "file has " ++ toString length ++ " lines (limit " ++
        toString limits.maxFileLines ++ ")"
      severity := .info
      suggestion := some "split the script by responsibility" }
  else none

/-- The issue of a long function. -/
def lengthIssue? (maxLines softLines : Nat) (file : String) (f : Function) : Option Issue :=
  if maxLines < f.bodyLines then some
    { check := "complexity", file, line := f.line, kind := "long_function"
      message := "function '" ++ f.name ++ "' is " ++ toString f.bodyLines ++ " lines (" ++
        toString f.statements ++ " statements), limit " ++ toString maxLines
      severity := .warning
      suggestion := some "extract helper functions" }
  else if softLines < f.bodyLines then some
    { check := "complexity", file, line := f.line, kind := "function_length"
      message := "function '" ++ f.name ++ "' is " ++ toString f.bodyLines ++
        " lines (soft limit " ++ toString softLines ++ ")"
      severity := .info }
  else none

/-- The issue of a deeply nested function. -/
def nestingIssue? (maxNesting : Nat) (file : String) (f : Function) : Option Issue :=
  if maxNesting < f.maxNesting then some
    { check := "complexity", file, line := f.line, kind := "deep_nesting"
      message := "function '" ++ f.name ++ "' nests " ++ toString f.maxNesting ++
        " levels deep (limit " ++ toString maxNesting ++ ")"
      severity := .info
      suggestion := some "use early returns or extract the inner block" }
  else none

/-- Every function with the path of its script. -/
def functionsOf (c : Context) : List (String × Function) :=
  c.scripts.flatMap fun s => s.facts.functions.map fun f => (s.path, f)

/-- The longest function that has a body, the first of several. -/
def longest? (functions : List (String × Function)) : Option (String × Function) :=
  functions.foldl (fun best x =>
    if ((best.map (·.2.bodyLines)).getD 0) < x.2.bodyLines then some x else best) none

/-- Functions are short and flat, and files are not too long. -/
def complexity : Check where
  id := "complexity"
  name := "Function complexity"
  category := .codeStructure
  isQuick := true
  threshold := { metric := "summary.long_functions" }
  run c :=
    let limits := c.config.complexity
    let maxLines := c.limit limits.maxLines
    let soft := softLimit c.options.strict limits maxLines
    let issues := c.scripts.flatMap fun s =>
      (fileSizeIssue? limits s).toList ++ s.facts.functions.flatMap fun f =>
        (lengthIssue? maxLines soft s.path f).toList ++
          (nestingIssue? limits.maxNesting s.path f).toList
    let functions := functionsOf c
    let total := sumOf (·.2.bodyLines) functions
    .finished
      { summary := .ofList [
          ("functions", .nat functions.length),
          ("average_lines", .float (share total functions.length 10.0)),
          ("statements", .nat (sumOf (·.2.statements) functions)),
          ("long_functions", countKind "long_function" issues),
          ("longest", match longest? functions with
            | some (file, f) =>
              .obj [("file", .str file), ("function", .str f.name), ("lines", .nat f.bodyLines)]
            | none => .null),
          ("max_lines", .nat maxLines),
          ("by_severity", severityCounts issues)]
        issues }

end GodotLint.Check
