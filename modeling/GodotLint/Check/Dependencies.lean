import GodotLint.Check.Basic
import GodotLint.Graph.Basic

/-!
# Checks of dependencies

How many scripts a script depends on, dependencies that point from a lower layer to a higher one,
and cycles of imports.
-/

namespace GodotLint.Check

/-! ## Coupling -/

/-- A dependency of one script on another and the first line that makes it. -/
structure Dependency where
  source : String
  target : String
  line : Nat
  deriving DecidableEq, Repr

namespace Dependency

/-- Order by source, then by target. -/
def compare (a b : Dependency) : Ordering :=
  thenBy (Ord.compare a.source b.source) (Ord.compare a.target b.target)

/-- Whether two dependencies have the same ends. -/
def sameEnds (a b : Dependency) : Bool := a.source == b.source && a.target == b.target

/-- Takes neighbours with the same ends together, with the smaller line. -/
def merge : List Dependency → List Dependency
  | [] => []
  | d :: rest =>
    match merge rest with
    | [] => [d]
    | e :: others =>
      if d.sameEnds e then { e with line := min d.line e.line } :: others else d :: e :: others

/-- The dependencies of a project: what scripts import, and the scripts that declare the classes
they use. Each pair occurs once. -/
def ofIndex (ix : Index) : List Dependency :=
  let imported := ix.imports.edges.map fun e => (⟨e.source, e.target, e.line⟩ : Dependency)
  let used := (ix.referencesOf .className).filterMap fun r =>
    match r.resolution with
    | .resolved target =>
      if target != r.file && target.endsWith ".gd" then some ⟨r.file, target, r.mention.line⟩
      else none
    | _ => none
  merge (stableSort (fun a b => (a.compare b).isLE) (imported ++ used))

/-- Why a dependency breaks the order of layers: it points to a higher one. -/
def violation? (d : Dependency) : Option String :=
  let source := Layer.ofPath d.source
  let target := Layer.ofPath d.target
  match source.rank?, target.rank? with
  | some a, some b => if a < b then some (source.name ++ " -> " ++ target.name) else none
  | _, _ => none

end Dependency

/-- How a script hangs together with others. -/
structure Coupling where
  /-- The number of scripts that depend on it. -/
  afferent : Nat
  /-- The number of scripts it depends on. -/
  efferent : Nat
  deriving DecidableEq, Repr

/-- How a script hangs together with others. -/
def couplingOf (deps : List Dependency) (file : String) : Coupling where
  afferent := deps.countP (·.target == file)
  efferent := deps.countP (·.source == file)

/-- The coupling as a summary value. -/
def couplingMetrics (c : Coupling) : Json :=
  .obj [("afferent", .nat c.afferent), ("efferent", .nat c.efferent),
    ("instability", .float (share c.efferent (c.afferent + c.efferent) 100.0))]

/-- The issue of a script that depends on too many others. -/
def couplingIssue? (limit : Nat) (file : String) (c : Coupling) : Option Issue :=
  if limit < c.efferent then some
    { check := "coupling", file, line := 1, kind := "high_coupling"
      message := "depends on " ++ toString c.efferent ++ " scripts (limit " ++ toString limit ++ ")"
      severity := .warning
      suggestion := some "split the script or route through a signal bus" }
  else none

/-- The issue of a dependency on a higher layer. -/
def layerIssue (d : Dependency) (reason : String) : Issue :=
  { check := "coupling", file := d.source, line := d.line, kind := "layer_violation"
    message := d.source ++ " depends on " ++ d.target ++ " (" ++ reason ++ ")"
    severity := .error }

/-- The dependencies on higher layers from scripts of the layer asked for. -/
def layerViolations (layer : Option Layer) (deps : List Dependency) : List (Dependency × String) :=
  (deps.filter fun d => layer.all (Layer.ofPath d.source == ·)).filterMap fun d =>
    d.violation?.map fun reason => (d, reason)

/-- Scripts depend on few others, and never on a higher layer. -/
def coupling : Check where
  id := "coupling"
  name := "Coupling and layering"
  category := .architecture
  isQuick := true
  threshold := { metric := "summary.layer_violation_count", failIfGe := some 1.0 }
  run c :=
    let limit := c.limit c.config.maxEfferent
    let deps := Dependency.ofIndex c.index
    let couplings := c.scripts.map fun s => (s.path, couplingOf deps s.path)
    let metrics : SortedMap Json :=
      .ofList (couplings.map fun (file, k) => (file, couplingMetrics k))
    let violations := layerViolations c.options.layer deps
    .finished
      { summary := .ofList [
          ("files", .nat metrics.size),
          ("dependencies", .nat deps.length),
          ("layer_violation_count", .nat violations.length),
          ("layer_violations", .arr (violations.map fun (d, reason) =>
            .obj [("from", .str d.source), ("line", .nat d.line), ("reason", .str reason),
              ("to", .str d.target)])),
          ("metrics", .obj metrics.entries)]
        issues := couplings.filterMap (fun (file, k) => couplingIssue? limit file k) ++
          violations.map fun (d, reason) => layerIssue d reason }

/-! ## Cycles of imports -/

/-- A cycle with its first node repeated at the end. -/
def closed (cycle : List String) : List String := cycle ++ cycle.take 1

/-- The issue of a cycle of imports. -/
def cycleIssue (g : Graph) (cycle : List String) : Issue :=
  let first := cycle.headD ""
  let second := (cycle.drop 1).headD first
  let isDirect := cycle.length = 2
  { check := "cyclic_imports", file := first
    line := ((g.edge? first second).map (·.line)).getD 0
    kind := if isDirect then "direct_cycle" else "indirect_cycle"
    message := "import cycle of length " ++ toString cycle.length ++ ": " ++
      joinWith " -> " (closed cycle)
    severity := if isDirect then .error else .warning
    suggestion := some "break the cycle with a signal, an autoload or a late load()" }

/-- Scripts do not import each other in a circle. -/
def cyclicImports : Check where
  id := "cyclic_imports"
  name := "Cyclic imports"
  category := .architecture
  isQuick := true
  threshold := { metric := "summary.direct_cycles", failIfGe := some 1.0 }
  run c :=
    let g := c.index.imports
    let cycles := g.cycles (c.limit c.config.cycleDepth)
    .finished
      { summary := .ofList [
          ("files", .nat g.nodes.length),
          ("edges", .nat g.edges.length),
          ("cycle_count", .nat cycles.length),
          ("direct_cycles", countOf (·.length = 2) cycles),
          ("cycles", .arr (cycles.map .strs))]
        issues := cycles.map (cycleIssue g) }

end GodotLint.Check
