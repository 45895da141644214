import GodotLint.Ordering
import GodotLint.Pattern.Basic
import GodotLint.Project.Path

/-!
# Scenes

A scene file is a list of bracketed headers with attributes, each followed by properties. Resources
are declared with an id and used by it, before or after the declaration. Both spellings of a use
are understood, `ExtResource("1_ab")` and `ExtResource( 1 )`.
-/

namespace GodotLint

open Text

/-- A resource that a scene declares. -/
structure SceneResource where
  id : String
  path : String
  type : Option String
  line : Nat
  /-- The path names a file of the project, or nothing that could be looked up. -/
  present : Bool
  deriving DecidableEq, Repr

/-- A node of a scene. -/
structure SceneNode where
  name : String
  type : Option String
  /-- The path of the parent, none for the root. -/
  parent : Option String
  /-- The path of the script attached to the node. -/
  script : Option String
  /-- The path of the scene that the node is an instance of. -/
  subscene : Option String
  line : Nat
  deriving DecidableEq, Repr

namespace SceneNode

/-- The path of the node from the root, which is `.` itself. -/
def path (n : SceneNode) : String :=
  match n.parent with
  | none => "."
  | some parent => if parent == "." then n.name else parent ++ "/" ++ n.name

/-- How far the node is below the root, told by the path of its parent. -/
def depth (n : SceneNode) : Nat :=
  match n.parent with
  | none => 0
  | some parent => if parent == "." then 1 else parent.toList.count '/' + 2

end SceneNode

/-- A signal connection made in a scene. -/
structure Connection where
  signal : String
  source : String
  target : String
  method : String
  line : Nat
  deriving DecidableEq, Repr

/-- What can be wrong in a scene. -/
inductive SceneFault where
  | missingResource (path : String)
  | duplicateSibling (path : String)
  | unknownResource (id : String)
  deriving DecidableEq, Repr

/-- One scene. -/
structure Scene where
  /-- The path from the project root. -/
  file : String
  resources : SortedMap SceneResource := .empty
  nodes : List SceneNode := []
  connections : List Connection := []
  /-- Faults and their lines. -/
  faults : List (Nat × SceneFault) := []
  deriving Repr

namespace Scene

open Pattern

/-- A header: its kind as group 1, its attributes as group 2. -/
def headerShape : Pattern :=
  .atStart ++ .char '[' ++ .group 1 (.plus (.oneOf [.range 'a' 'z', .only '_'])) ++
    .group 2 (.star .any) ++ .char ']' ++ blanks ++ .atEnd

/-- An attribute: its name as group 1, its value as group 2. -/
def attributeShape : Pattern :=
  .group 1 ident ++ blanks ++ .char '=' ++ blanks ++ .group 2 (choice [
    .char '"' ++ .star (.noneOf [.only '"', .only '\\'] <|> .char '\\' ++ .any) ++ .char '"',
    .plus (.oneOf [.range 'A' 'Z', .range 'a' 'z', .only '_']) ++ .char '(' ++
      .star (charNotOf ")") ++ .char ')',
    .char '[' ++ .star (charNotOf "]") ++ .char ']',
    .plus (.noneOf [.blank, .only ']'])])

/-- A use of a resource, its id as group 1. -/
def resourceUse : Pattern :=
  lit "ExtResource(" ++ blanks ++ .opt (.char '"') ++
    .group 1 (.plus (.noneOf [.only '"', .only ')', .blank])) ++ .opt (.char '"') ++ blanks ++
    .char ')'

/-- A value without the quotation marks around it. -/
def unquote (value : List Char) : List Char :=
  match value with
  | '"' :: rest => if rest.getLast? == some '"' then rest.dropLast else value
  | _ => value

/-- The kind and the attributes of a header line. -/
def header? (line : List Char) : Option (String × SortedMap String) :=
  (headerShape.find? (trim line)).map fun m =>
    (str (m.group 1), .ofList ((attributeShape.findAll (m.group 2)).map fun a =>
      (str (a.group 1), str (unquote (a.group 2)))))

/-- Whether a resource path names a file of the project, or nothing that could be looked up. -/
def isPresent (file path : String) (files : List String) : Bool :=
  path.isEmpty || (Path.resolveString? file path).all files.contains

/-- Takes the declaration of a resource. -/
def declare (files : List String) (s : Scene) (numbered : List Char × Nat) : Scene :=
  let (line, number) := numbered
  match header? line with
  | none => s
  | some (kind, attrs) =>
    match kind == "ext_resource", attrs.get? "id" with
    | true, some id =>
      let path := (attrs.get? "path").getD ""
      let present := isPresent s.file path files
      { s with
        resources := s.resources.insert id
          { id, path, type := attrs.get? "type", line := number, present }
        faults := if present then s.faults else s.faults ++ [(number, .missingResource path)] }
    | _, _ => s

/-- The path that a use of a resource stands for, and the fault if the id was never declared. -/
def resolveUse (s : Scene) (value : List Char) (line : Nat) :
    Option String × List (Nat × SceneFault) :=
  match resourceUse.find? value with
  | none => (none, [])
  | some m =>
    let id := str (m.group 1)
    match s.resources.get? id with
    | some resource => (some resource.path, [])
    | none => (none, [(line, .unknownResource id)])

/-- Whether two nodes have the same parent and name. -/
def siblings (parent : Option String) (name : String) (n : SceneNode) : Bool :=
  n.parent.getD "" == parent.getD "" && n.name == name

/-- Takes the header of a node. -/
def addNode (s : Scene) (attrs : SortedMap String) (line : Nat) : Scene :=
  let name := (attrs.get? "name").getD ""
  let parent := attrs.get? "parent"
  let duplicate := s.nodes.any (siblings parent name)
  let shown := if (parent.getD "").isEmpty then name else parent.getD "" ++ "/" ++ name
  let (subscene, unknown) :=
    match attrs.get? "instance" with
    | some value => s.resolveUse value.toList line
    | none => (none, [])
  { s with
    nodes := s.nodes ++
      [{ name, type := attrs.get? "type", parent, script := none, subscene, line }]
    faults := s.faults ++ (if duplicate then [(line, .duplicateSibling shown)] else []) ++ unknown }

/-- The value of a `script` property. -/
def scriptProperty? (line : List Char) : Option (List Char) := do
  let rest ← afterPrefix? "script".toList (trim line)
  let value ← afterPrefix? ['='] (trimStart rest)
  return trim value

/-- Gives the last node a script. -/
def setScript (s : Scene) (value : List Char) (line : Nat) : Scene :=
  match s.nodes.getLast? with
  | none => s
  | some node =>
    let (script, unknown) := s.resolveUse value line
    { s with
      nodes := s.nodes.dropLast ++ [{ node with script }], faults := s.faults ++ unknown }

/-- Takes one line of the tree; the flag says whether the line belongs to the last node. -/
def readTree (state : Scene × Bool) (numbered : List Char × Nat) : Scene × Bool :=
  let (s, inNode) := state
  let (line, number) := numbered
  match header? line with
  | some (kind, attrs) =>
    if kind == "node" then (s.addNode attrs number, true)
    else if kind == "connection" then
      let attr (key : String) : String := (attrs.get? key).getD ""
      ({ s with connections := s.connections ++ [
          { signal := attr "signal", source := attr "from", target := attr "to",
            method := attr "method", line := number }] }, false)
    else (s, false)
  | none =>
    match inNode, scriptProperty? line with
    | true, some value => (s.setScript value number, true)
    | _, _ => (s, inNode)

/-- The scene in a file, given the files of the project. All resources are declared before the
tree is read. -/
def parse (file : String) (text : List Char) (files : List String) : Scene :=
  let numbered := (lines text).zipIdx 1
  let declared := numbered.foldl (declare files) { file }
  (numbered.foldl readTree (declared, false)).1

/-- How many nodes give each path as that of their parent. -/
def childCounts (s : Scene) : SortedMap Nat :=
  (s.nodes.filterMap (·.parent)).foldl (·.count ·) .empty

/-- The number of children of a node, looked up by its path. -/
def childCount (s : Scene) (n : SceneNode) : Nat := (s.childCounts.get? n.path).getD 0

/-- The depth of the deepest node. -/
def maxDepth (s : Scene) : Nat := s.nodes.foldl (fun d n => max d n.depth) 0

/-- The first node without a parent. -/
def root? (s : Scene) : Option SceneNode := s.nodes.find? (·.parent.isNone)

/-- The files of the scripts attached in the scene, each once. -/
def scripts (s : Scene) : List String :=
  sortedSet (s.nodes.filterMap fun n => n.script.bind (Path.resolveString? s.file))

end Scene

end GodotLint
