import GodotLint.Check.Basic

/-!
# Checks of data files and scenes

Ids and resources that data files name but nobody declares, entries that nobody names, and scenes
with missing resources, ambiguous nodes or too much depth.
-/

namespace GodotLint.Check

/-! ## Data files -/

/-- The issue of a reference to an unknown id. -/
def brokenReferenceIssue (file : String) (r : DataReference) : Issue :=
  { check := "json_refs", file, line := r.line, kind := "broken_reference"
    message := r.field ++ " references unknown id \"" ++ r.target ++ "\" (" ++ r.path ++ ")"
    severity := .error }

/-- The issue of a resource path that names no file. -/
def missingDataResourceIssue (file : String) (r : DataResource) : Issue :=
  { check := "json_refs", file, line := r.line, kind := "missing_resource"
    message := r.path ++ " points to missing file " ++ r.target
    severity := .error }

/-- The references of a data file to unknown ids. -/
def brokenReferences (ix : Index) (d : DataFile) : List DataReference :=
  d.references.filter fun r => !ix.dataIds.contains r.target

/-- The resource paths of a data file that name no file. -/
def missingResources (d : DataFile) : List DataResource := d.resources.filter (!·.present)

/-- The entries of a data file that neither data nor scripts name, with their lines. -/
def orphans (known : String → Bool) (d : DataFile) : List (String × Nat) :=
  match d.idSource with
  | .entries => d.ids.entries.filter fun (id, _) => !known id
  | .arrays => d.ids.entries.filter fun (id, _) => !known id
  | _ => []

/-- The issue of an entry that nobody names. -/
def orphanIssue (file : String) (entry : String × Nat) : Issue :=
  .rated "json_refs" file entry.2 "orphan_entry"
    ("\"" ++ entry.1 ++ "\" is never referenced by data or scripts") .low

/-- A reference as a summary value. -/
def referenceSummary (file : String) (r : DataReference) : Json :=
  .obj [("file", .str file), ("line", .nat r.line), ("path", .str r.path),
    ("target", .str r.target)]

/-- Data files name what exists, and are named. -/
def jsonRefs : Check where
  id := "json_refs"
  name := "JSON references"
  category := .dataIntegrity
  inputs := [.data]
  isQuick := true
  threshold := { metric := "summary.broken", failIfGe := some 1.0 }
  run c :=
    let data := c.project.data
    let references := data.flatMap (·.references)
    let broken := data.flatMap fun d => (brokenReferences c.index d).map fun r => (d.file, r)
    let missing := (data.flatMap missingResources).length
    let named := sortedSet (references.map (·.target))
    let known (id : String) : Bool :=
      named.contains id || DataFile.entryPoints.contains id ||
        c.config.data.entryPoints.contains id || c.index.stringValues.contains id
    let lonely := data.flatMap fun d => (orphans known d).map fun entry => (d.file, entry)
    .finished
      { summary := .ofList [
          ("files", .nat data.length),
          ("ids", .nat c.index.dataIds.size),
          ("references", .nat references.length),
          ("resolved", .nat (references.length - broken.length)),
          ("broken", .nat (broken.length + missing)),
          ("broken_references", .arr (broken.map fun (file, r) => referenceSummary file r)),
          ("missing_resources", .nat missing),
          ("orphans", .nat lonely.length)]
        issues :=
          (data.flatMap fun d =>
            (brokenReferences c.index d).map (brokenReferenceIssue d.file) ++
              (missingResources d).map (missingDataResourceIssue d.file)) ++
          lonely.map fun (file, entry) => orphanIssue file entry }

/-! ## Scenes -/

/-- The kind and the message of a fault of a scene. -/
def sceneFaultText : SceneFault → String × String
  | .missingResource path =>
    ("missing_resource", "ext_resource points to missing file " ++ path)
  | .duplicateSibling path =>
    ("duplicate_sibling", "two sibling nodes share the path " ++ path)
  | .unknownResource id =>
    ("unknown_resource_id", "ExtResource(\"" ++ id ++ "\") was never declared")

/-- The issue of a fault of a scene. -/
def sceneFaultIssue (file : String) (fault : Nat × SceneFault) : Issue :=
  let (kind, message) := sceneFaultText fault.2
  { check := "scene_health", file, line := fault.1, kind, message, severity := .error }

/-- The nodes that are one level too deep. Those below them are not counted again. -/
def tooDeep (limits : SceneLimits) (s : Scene) : List SceneNode :=
  s.nodes.filter fun n => n.depth = limits.maxDepth + 1

/-- The issue of a node that is too deep. -/
def depthIssue (limits : SceneLimits) (file : String) (n : SceneNode) : Issue :=
  { check := "scene_health", file, line := n.line, kind := "deep_nesting"
    message := "node " ++ n.path ++ " sits " ++ toString n.depth ++ " levels deep (max " ++
      toString limits.maxDepth ++ ")"
    severity := .warning
    suggestion := some "split the branch into its own scene" }

/-- The issue of a scene with too many nodes. -/
def sceneSizeIssue? (limits : SceneLimits) (s : Scene) : Option Issue :=
  if limits.maxNodes < s.nodes.length then some
    { check := "scene_health", file := s.file, line := ((s.root?).map (·.line)).getD 1
      kind := "large_scene"
      message := "scene has " ++ toString s.nodes.length ++ " nodes (max " ++
        toString limits.maxNodes ++ ")"
      severity := .info }
  else none

/-- The issues of a scene. -/
def sceneIssues (limits : SceneLimits) (s : Scene) : List Issue :=
  s.faults.map (sceneFaultIssue s.file) ++ (tooDeep limits s).map (depthIssue limits s.file) ++
    (sceneSizeIssue? limits s).toList

/-- Scenes are sound and of moderate size. -/
def sceneHealth : Check where
  id := "scene_health"
  name := "Scene health"
  category := .engine
  inputs := [.scenes]
  threshold := { metric := "summary.broken", failIfGe := some 1.0 }
  run c :=
    let scenes := c.project.scenes
    let limits := c.config.scenes
    .finished
      { summary := .ofList [
          ("scenes", .nat scenes.length),
          ("nodes", .nat (sumOf (·.nodes.length) scenes)),
          ("broken", .nat (sumOf (·.faults.length) scenes)),
          ("too_deep", .nat (sumOf (fun s => (tooDeep limits s).length) scenes)),
          ("too_large", countOf (fun s => (sceneSizeIssue? limits s).isSome) scenes)]
        issues := scenes.flatMap (sceneIssues limits) }

end GodotLint.Check
