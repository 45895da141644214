import GodotLint.Check.Basic
import GodotLint.Script.Preload

/-!
# Check of loading

Resources that are preloaded inside functions, loaded with the class, missing, or preloaded for
nothing.
-/

namespace GodotLint.Check

/-- The issue of a load at a place that does not fit its kind. -/
def loadIssue? (strict : Bool) (file : String) (l : Load) : Option Issue :=
  match l.kind with
  | .preload =>
    if l.scope == .function then some
      { check := "preload_patterns", file, line := l.line, kind := "preload_in_function"
        message := "preload(\"" ++ l.target ++ "\") inside " ++ l.function.getD "a function" ++
          "() still loads when the script is parsed"
        severity := .warning
        suggestion := some "hoist it into a class-level const" }
    else none
  | .load =>
    if strict && l.scope != .function then some
      { check := "preload_patterns", file, line := l.line, kind := "class_level_load"
        message := "load(\"" ++ l.target ++ "\") at class level could be preload()"
        severity := .warning
        suggestion := some ("preload(\"" ++ l.target ++ "\")") }
    else none
  | .extends => none

/-- The issue of a constant that is preloaded for nothing. -/
def unusedPreloadIssue (file : String) (unused : Nat × String) : Issue :=
  { check := "preload_patterns", file, line := unused.1 + 1, kind := "unused_preload"
    message := "preloaded constant '" ++ unused.2 ++ "' is never used"
    severity := .info
    suggestion := some "gdscan fix unused-preloads" }

/-- The issue of a load of a missing file. -/
def brokenLoadIssue (b : BrokenLoad) : Issue :=
  { check := "preload_patterns", file := b.file, line := b.load.line, kind := "broken_import"
    message := b.load.kind.name ++ "(\"" ++ b.load.target ++ "\") points to a missing file"
    severity := .error }

/-- The number of loads of each scope. -/
def scopeCounts (loads : List Load) : SortedMap Nat :=
  .ofList ([LoadScope.classBody, .onready, .function].map fun scope =>
    (scope.name, loads.countP (·.scope == scope)))

/-- Resources exist, and are loaded where it makes sense. -/
def preloadPatterns : Check where
  id := "preload_patterns"
  name := "Preload and load usage"
  category := .performance
  isQuick := true
  threshold := { metric := "summary.broken", failIfGe := some 1.0 }
  run c :=
    let calls := (c.scripts.flatMap (·.facts.loads)).filter (·.kind != .extends)
    let broken := c.index.brokenLoads
    let issues := c.scripts.flatMap fun s =>
      s.facts.loads.filterMap (loadIssue? c.options.strict s.path) ++
        (Script.unusedPreloads s.source.lines).map (unusedPreloadIssue s.path)
    .finished
      { summary := .ofList [
          ("preloads", countOf (·.kind == .preload) calls),
          ("loads", countOf (·.kind == .load) calls),
          ("by_scope", .counts (scopeCounts calls)),
          ("unused", countKind "unused_preload" issues),
          ("broken", .nat broken.length)]
        issues := issues ++ broken.map brokenLoadIssue }

end GodotLint.Check
