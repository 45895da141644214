import GodotLint.Check.Dependencies

/-!
# Check of singletons

Singletons whose file is missing, that nothing uses, or that use each other in a circle, and the
order in which they are loaded.
-/

namespace GodotLint.Check

/-- The issue of a singleton whose file is missing or that nothing uses. -/
def autoloadIssue? (a : AutoloadEntry) : Option Issue :=
  if !a.present then some
    { check := "autoloads", file := Settings.fileName, line := a.decl.line
      kind := "missing_autoload_script"
      message := "autoload '" ++ a.name ++ "' points to missing file " ++ a.decl.path
      severity := .error }
  else if a.uses.isEmpty then some
    { check := "autoloads", file := Settings.fileName, line := a.decl.line
      kind := "unused_autoload"
      message := "autoload '" ++ a.name ++ "' is never referenced"
      severity := .info
      suggestion := some "remove the autoload or turn it into a plain script" }
  else none

/-- Which singleton uses which. -/
def autoloadGraph (autoloads : List AutoloadEntry) : Graph :=
  autoloads.foldl (fun g a =>
    a.deps.foldl (fun g dep =>
      g.addEdge { source := a.name, target := dep, kind := .load, line := a.decl.line })
      (g.addNode a.name)) .empty

/-- A cycle turned so that it starts with the node that `position` puts first. -/
def rotateToFirst (position : String → Nat) (cycle : List String) : List String :=
  match cycle with
  | [] => []
  | first :: rest =>
    let least := rest.foldl (fun best x => if position x < position best then x else best) first
    let start := cycle.takeWhile (· != least)
    cycle.drop start.length ++ start

/-- How a cycle of singletons is shown. -/
def cycleLabel (cycle : List String) : String :=
  if cycle.length = 2 then joinWith " <-> " cycle else joinWith " -> " (closed cycle)

/-- The cycles of singletons, each starting with the one that is declared first. -/
def autoloadCycles (ix : Index) : List (List String) :=
  let position (name : String) : Nat := ix.autoloads.findIdx (·.name == name)
  ((autoloadGraph ix.autoloads).cycles (max ix.autoloads.length 2)).map (rotateToFirst position)

/-- The issue of a cycle of singletons. -/
def autoloadCycleIssue (ix : Index) (cycle : List String) : Issue :=
  { check := "autoloads", file := Settings.fileName
    line := ((ix.autoload? (cycle.headD "")).map (·.decl.line)).getD 0
    kind := "circular_autoload"
    message := "circular autoload dependency: " ++ cycleLabel cycle
    severity := .warning }

/-- A singleton as a summary value. -/
def autoloadSummary (a : AutoloadEntry) : Json :=
  .obj [("deps", .strs a.deps), ("exists", .bool a.present), ("name", .str a.name),
    ("path", .str a.decl.path), ("script", .optStr a.script), ("usage_count", .nat a.uses.length)]

/-- Singletons exist, are used, and can be loaded one after the other. -/
def autoloads : Check where
  id := "autoloads"
  name := "Autoloads"
  category := .architecture
  inputs := [.scripts, .settings]
  isQuick := true
  threshold := { metric := "summary.missing", failIfGe := some 1.0 }
  run c :=
    let ix := c.index
    let single := ix.autoloads.filterMap autoloadIssue?
    let cycles := autoloadCycles ix
    .finished
      { summary := .ofList [
          ("count", .nat ix.autoloads.length),
          ("missing", countKind "missing_autoload_script" single),
          ("unused", countKind "unused_autoload" single),
          ("circular", .strs (cycles.map cycleLabel)),
          ("load_order", .strs ix.autoloadOrder),
          ("order_complete", .bool ix.autoloadOrderComplete),
          ("autoloads", .arr (ix.autoloads.map autoloadSummary))]
        issues := single ++ cycles.map (autoloadCycleIssue ix) }

end GodotLint.Check
