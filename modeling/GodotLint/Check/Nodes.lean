import GodotLint.Check.Basic
import GodotLint.Naming.Words

/-!
# Checks of nodes

Lookups of nodes that are slow, may fail or are made again and again, and exported variables whose
type is missing or does not fit.
-/

namespace GodotLint.Check

open Text

/-! ## Lookups -/

/-- The number of lookups of one path in a file from which on it should be kept. -/
def repeatLimit : Nat := 3

/-- The name of a variable that keeps the node at a path. -/
def variableFor (path : String) : String :=
  let last := (afterLast '/' path.toList).dropWhile (· == '%')
  let name := Naming.toSnakeCase last
  if name.isEmpty then "node" else str name

/-- The declaration that keeps the node at a path. -/
def keptNode (path : String) : String := "@onready var " ++ variableFor path ++ " = $" ++ path

/-- The issue of a lookup: a search of the tree, a lookup in every frame, or one that may fail. -/
def lookupIssue? (file : String) (n : NodeRef) : Option Issue :=
  if n.kind == .findChild then some
    { check := "node_refs", file, line := n.line, kind := "find_child_usage"
      message := "find_child(\"" ++ n.path ++ "\") walks the whole subtree"
      severity := .info
      suggestion := some "use a %UniqueName or an @onready reference" }
  else
    match Naming.frameHook? n.function, n.onready with
    | some hook, false => some
      { check := "node_refs", file, line := n.line, kind := "hot_path_node_lookup"
        message := "node lookup '" ++ n.path ++ "' runs every frame in " ++ hook ++ "()"
        severity := .warning
        suggestion := some (keptNode n.path) }
    | _, _ =>
      if !n.safe && n.function.isSome && n.kind != .unique then some
        { check := "node_refs", file, line := n.line, kind := "unsafe_node_ref"
          message := "'" ++ n.path ++ "' is not null-checked and fails if the node is missing"
          severity := .info
          suggestion := some ("get_node_or_null(\"" ++ n.path ++ "\")") }
      else none

/-- The lines in functions on which each path is looked up. -/
def lookupLines (refs : List NodeRef) : SortedMap (List Nat) :=
  (refs.filter fun n => !n.onready && n.function.isSome).foldl
    (fun m n => m.append n.path n.line) .empty

/-- The issue of a path that is looked up again and again. -/
def repeatedLookupIssue? (file path : String) (lines : List Nat) : Option Issue :=
  if lines.length < repeatLimit then none
  else some
    { check := "node_refs", file, line := lines.headD 0, kind := "repeated_node_lookup"
      message := "'" ++ path ++ "' is looked up " ++ toString lines.length ++ " times in this file"
      severity := .info
      suggestion := some (keptNode path) }

/-- The issues of the lookups in a script. -/
def lookupIssues (s : Script) : List Issue :=
  s.facts.nodeRefs.filterMap (lookupIssue? s.path) ++
    (lookupLines s.facts.nodeRefs).entries.filterMap fun (path, lines) =>
      repeatedLookupIssue? s.path path lines

/-- Nodes are looked up safely and once. -/
def nodeRefs : Check where
  id := "node_refs"
  name := "Node references"
  category := .engine
  threshold := { metric := "summary.unsafe" }
  run c :=
    let refs := c.scripts.flatMap (·.facts.nodeRefs)
    .finished
      { summary := .ofList [
          ("references", .nat refs.length),
          ("safe", countOf (·.safe) refs),
          ("unsafe", countOf (!·.safe) refs),
          ("onready", countOf (·.onready) refs),
          ("by_kind", .counts (tally (refs.map (·.kind.name))))]
        issues := c.scripts.flatMap lookupIssues }

/-! ## Exported variables -/

/-- Classes of nodes that are often exported. -/
def nodeTypes : List String :=
  ["Node", "Node2D", "Node3D", "Control", "CanvasItem", "CanvasLayer", "Sprite2D",
    "AnimatedSprite2D", "AnimationPlayer", "AnimationTree", "Camera2D", "Area2D",
    "CollisionShape2D", "CharacterBody2D", "RigidBody2D", "StaticBody2D", "Path2D",
    "PathFollow2D", "Line2D", "Marker2D", "TileMap", "TileMapLayer", "Timer", "Label",
    "RichTextLabel", "Button", "TextureButton", "TextureRect", "ColorRect", "Panel",
    "PanelContainer", "Container", "HBoxContainer", "VBoxContainer", "GridContainer",
    "MarginContainer", "ProgressBar", "TextureProgressBar", "LineEdit", "TextEdit",
    "AudioStreamPlayer", "AudioStreamPlayer2D", "GPUParticles2D", "CPUParticles2D",
    "SubViewport", "Viewport"]

/-- The issue of an exported variable without a type, `inferred` telling that its value gives
it one. -/
def untypedExportIssue? (file : String) (inferred : Bool) (d : Declaration) : Option Issue :=
  if d.typeHint.isSome || inferred then none
  else some
    { check := "exports", file, line := d.line, kind := "missing_export_type"
      message := "exported variable '" ++ d.name ++ "' has no type annotation"
      severity := .warning
      suggestion := d.value.map fun value => "var " ++ d.name ++ ": <Type> = " ++ value }

/-- The issue of an annotation that does not fit the type. -/
def exportTypeIssue? (file : String) (form type : String) (d : Declaration) :
    Option Issue :=
  if form == "export_range" && !(["int", "float"].contains type) then some
    { check := "exports", file, line := d.line, kind := "export_range_type"
      message := "@export_range on '" ++ d.name ++ "' of non-numeric type " ++ type
      severity := .warning
      suggestion := some "use int or float" }
  else if form == "export_enum" && !(["int", "String", "StringName"].contains type) then some
    { check := "exports", file, line := d.line, kind := "export_enum_type"
      message := "@export_enum on '" ++ d.name ++ "' must be int or String, not " ++ type
      severity := .warning
      suggestion := some "use int or String" }
  else none

/-- The issue of an exported node that has to be assigned in the editor. -/
def nodeExportIssue? (file type : String) (d : Declaration) : Option Issue :=
  if nodeTypes.contains type && !d.hasDefault then some
    { check := "exports", file, line := d.line, kind := "node_export_without_default"
      message := "node export '" ++ d.name ++ ": " ++ type ++
        "' is null until assigned in the editor"
      severity := .info
      suggestion := some "assert the reference in _ready() or use a NodePath" }
  else none

/-- The issues of an exported variable that stands on the given line. -/
def exportIssues (file : String) (line : List Char) (d : Declaration) : List Issue :=
  match d.exportAnnotation? with
  | none => []
  | some annotation =>
    (untypedExportIssue? file (contains ":=".toList line) d).toList ++
      match d.typeHint with
      | none => []
      | some type =>
        (exportTypeIssue? file annotation.name type d).toList ++
          (nodeExportIssue? file type d).toList

/-- Exported variables have types, and their annotations fit them. -/
def exports : Check where
  id := "exports"
  name := "Exported variables"
  category := .engine
  isQuick := true
  threshold := { metric := "summary.issues" }
  run c :=
    let found := c.scripts.flatMap fun s => (s.facts.declarationsOf .export).map fun d => (s, d)
    let issues := found.flatMap fun (s, d) => exportIssues s.path (s.source.line d.line) d
    .finished
      { summary := .ofList [
          ("exports", .nat found.length),
          ("issues", .nat issues.length),
          ("by_type", kindCounts issues)]
        issues }

end GodotLint.Check
