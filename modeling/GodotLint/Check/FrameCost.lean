import GodotLint.Check.Basic
import GodotLint.Naming.Words

/-!
# Checks of work in every frame

Suspensions and tweens in functions that the engine calls in every frame, and tweens that are
replaced without being stopped.
-/

namespace GodotLint.Check

open Text

/-! ## Suspensions -/

/-- The issue of an `await` in a function that runs in every frame, or in strict runs in the one
that makes a node ready. -/
def awaitIssue? (strict : Bool) (file : String) (a : Await) : Option Issue :=
  match a.function with
  | none => none
  | some function =>
    if Naming.frameHooks.contains function then
      some (.rated "await_patterns" file a.line "hot_path_await"
        ("await " ++ a.expr ++ " inside " ++ function ++ "() suspends a per-frame callback") .high
        (some "move the awaited work into a separate function or a Timer callback"))
    else if strict && function == "_ready" then
      some (.rated "await_patterns" file a.line "ready_await"
        ("await " ++ a.expr ++ " inside _ready() delays the ready signal of parents") .medium
        (some "defer with call_deferred() or a dedicated init coroutine"))
    else none

/-- Nothing suspends a frame. -/
def awaitPatterns : Check where
  id := "await_patterns"
  name := "Await patterns"
  category := .performance
  isQuick := true
  threshold := { metric := "summary.hot_path", failIfGe := some 1.0 }
  run c :=
    let sites := c.scripts.flatMap fun s => s.facts.awaits.map fun a => (s.path, a)
    let issues := sites.filterMap fun (file, a) => awaitIssue? c.options.strict file a
    .finished
      { summary := .ofList [
          ("awaits", .nat sites.length),
          ("hot_path", countKind "hot_path_await" issues),
          ("by_function", .counts (tally (sites.filterMap (·.2.function))))]
        issues }

/-! ## Tweens -/

namespace Tween

open Pattern

/-- A call that creates a tween. -/
def creation : Pattern := .wordEdge ++ lit "create_tween" ++ blanks ++ .char '('

/-- The outdated way to create a tween. -/
def outdated : Pattern := .wordEdge ++ lit "Tween.new" ++ blanks ++ .char '('

/-- A line that keeps a new tween in a variable, which is group 1. -/
def keeping : Pattern :=
  .atStart ++ blanks ++ .opt (lit "self.") ++ .group 1 ident ++ blanks ++ .char '=' ++ blanks ++
    .opt (Script.dottedName ++ .char '.') ++ lit "create_tween" ++ blanks ++ .char '('

/-- A line of code without the contents of literals, and the function it is in. -/
structure CodeLine where
  number : Nat
  code : List Char
  function : Option String

/-- The lines of a script without comments and the contents of literals. -/
def codeLines (s : Script) : List CodeLine :=
  (s.source.lines.zipIdx 1).map fun (raw, number) =>
    { number, code := Line.mask (Line.code raw)
      function := (Function.enclosing? s.facts.functions number).map (·.name) }

/-- The issues of one line. -/
def lineIssues (file : String) (l : CodeLine) : List Issue :=
  let everyFrame :=
    match Naming.frameHook? l.function, creation.occursIn l.code with
    | some hook, true =>
      [{ check := "tweens", file, line := l.number, kind := "hot_path_tween"
         message := "create_tween() inside " ++ hook ++ "() starts a new tween every frame"
         severity := .warning
         suggestion := some "create the tween on a state change, not per frame" : Issue }]
    | _, _ => []
  let old :=
    if outdated.occursIn l.code then
      [{ check := "tweens", file, line := l.number, kind := "legacy_tween"
         message := "Tween.new() is the Godot 3 node API"
         severity := .warning
         suggestion := some "create_tween()" : Issue }]
    else []
  everyFrame ++ old

/-- The member that a line keeps a new tween in. -/
def keptIn? (l : CodeLine) : Option String :=
  if creation.occursIn l.code then (keeping.find? l.code).map fun m => str (m.group 1) else none

/-- The lines that declare members, a later declaration standing for an earlier one. -/
def memberLines (declarations : List Declaration) : SortedMap Nat :=
  .ofList (declarations.map fun d => (d.name, d.line))

/-- The members that hold a tween, with the lines that declare them: by their type, or because a
new tween is kept in them. -/
def members (s : Script) (lines : List CodeLine) : SortedMap Nat :=
  let declared := (s.facts.declarationsOf .variable).filter (·.isMember)
  let all := memberLines declared
  (lines.filterMap keptIn?).foldl (fun m name =>
    match all.get? name with
    | some line => m.insertIfNew name line
    | none => m) (memberLines (declared.filter (·.typeHint == some "Tween")))

/-- Whether some line stops the tween in a member. -/
def isStopped (lines : List CodeLine) (name : String) : Bool :=
  lines.any fun l => contains (name ++ ".kill").toList l.code

/-- The issue of a member whose tween is never stopped. -/
def unstoppedIssue (file name : String) (line : Nat) : Issue :=
  { check := "tweens", file, line, kind := "tween_not_killed"
    message := "member tween '" ++ name ++ "' is never killed before being replaced"
    severity := .info
    suggestion := some ("if " ++ name ++ ": " ++ name ++ ".kill()") }

/-- The issues of a script. -/
def issues (s : Script) : List Issue :=
  let lines := codeLines s
  lines.flatMap (lineIssues s.path) ++
    ((members s lines).entries.filter fun (name, _) => !isStopped lines name).map
      fun (name, line) => unstoppedIssue s.path name line

/-- The number of lines that create a tween. -/
def creations (s : Script) : Nat := (codeLines s).countP fun l => creation.occursIn l.code

end Tween

/-- Tweens are created when something changes, and stopped. -/
def tweens : Check where
  id := "tweens"
  name := "Tween usage"
  category := .performance
  threshold := { metric := "summary.hot_path" }
  run c :=
    let issues := c.scripts.flatMap Tween.issues
    .finished
      { summary := .ofList [
          ("created", .nat (sumOf Tween.creations c.scripts)),
          ("hot_path", countKind "hot_path_tween" issues),
          ("legacy", countKind "legacy_tween" issues),
          ("unkilled_members", countKind "tween_not_killed" issues)]
        issues }

end GodotLint.Check
