import GodotLint.Ordering
import GodotLint.Script.Resource

/-!
# Dependency graphs

A directed graph over names. Each dependency is recorded with its kind and line; for each node the
graph also keeps the distinct nodes that it depends on, in rising order.

The search for cycles starts at each node in rising order and follows dependencies to larger nodes only,
so that every cycle is met from its smallest node. Of the cycles over one set of nodes the first is
kept, and of these only the ones whose set contains no other's. The search is cut off once it has
found `cycleLimit` cycles.
-/

namespace GodotLint

/-- One recorded dependency. -/
structure Edge where
  source : String
  target : String
  kind : LoadKind
  line : Nat
  deriving DecidableEq, Repr

/-- The place of a kind among edges between the same nodes. -/
def LoadKind.rank : LoadKind → Nat
  | .preload => 0
  | .load => 1
  | .extends => 2

/-- Order by source, target, kind and line. -/
def Edge.compare (a b : Edge) : Ordering :=
  thenBy (Ord.compare a.source b.source) <|
    thenBy (Ord.compare a.target b.target) <|
      thenBy (Ord.compare a.kind.rank b.kind.rank) (Ord.compare a.line b.line)

/-- A dependency graph. -/
structure Graph where
  /-- The nodes, and for each the nodes that it depends on, in rising order. -/
  adjacency : SortedMap (List String) := .empty
  /-- The dependencies in the order in which they were recorded. -/
  recorded : List Edge := []
  deriving Repr

namespace Graph

/-- The graph without nodes. -/
def empty : Graph := {}

/-- Puts a string into a list in rising order, once. -/
def insertName (name : String) : List String → List String
  | [] => [name]
  | x :: rest =>
    if name < x then name :: x :: rest
    else if name = x then x :: rest
    else x :: insertName name rest

/-- Adds a node. -/
def addNode (g : Graph) (node : String) : Graph :=
  { g with adjacency := g.adjacency.insertIfNew node [] }

/-- Records a dependency and adds its ends as nodes. -/
def addEdge (g : Graph) (e : Edge) : Graph :=
  let g := g.addNode e.target
  { adjacency := g.adjacency.alter e.source fun old => insertName e.target (old.getD [])
    recorded := g.recorded ++ [e] }

/-- The nodes in rising order. -/
def nodes (g : Graph) : List String := g.adjacency.keys

/-- The recorded dependencies, sorted. -/
def edges (g : Graph) : List Edge := stableSort (fun a b => (a.compare b).isLE) g.recorded

/-- The recorded dependency between two nodes with the least line, the first of several. -/
def edge? (g : Graph) (source target : String) : Option Edge :=
  (g.recorded.filter fun e => e.source == source && e.target == target).foldl
    (fun best e =>
      match best with
      | none => some e
      | some b => if e.line < b.line then some e else some b) none

/-- The nodes that a node depends on, in rising order. -/
def successors (g : Graph) (node : String) : List String := (g.adjacency.get? node).getD []

/-- Whether one node depends on another. -/
def hasEdge (g : Graph) (source target : String) : Bool := (g.successors source).contains target

/-- The number of nodes that a node depends on. -/
def outDegree (g : Graph) (node : String) : Nat := (g.successors node).length

/-- The number of nodes that depend on a node. -/
def inDegree (g : Graph) (node : String) : Nat :=
  g.adjacency.entries.countP fun (_, targets) => targets.contains node

/-! ## Cycles -/

/-- The number of cycles at which the search stops. -/
def cycleLimit : Nat := 1000

/-- A list of names in rising order. -/
def sortedNames (names : List String) : List String := stableSort (fun a b => a ≤ b) names

/-- The cycles found so far, the last one first, each with its nodes in rising order. -/
abbrev Found := List (List String × List String)

/-- Keeps a cycle unless one over the same nodes was found. -/
def keepCycle (cycle : List String) (found : Found) : Found :=
  let names := sortedNames cycle
  if found.any (·.2 == names) then found else (cycle, names) :: found

/-- Follows the dependencies of the first node of `path`, which leads back to `start`. The path grows
only while it is shorter than `maxDepth`. -/
def search (g : Graph) (start : String) (maxDepth : Nat) (path : List String) (found : Found) :
    Found :=
  if cycleLimit ≤ found.length then found
  else
    (path.head?.elim [] g.successors).foldl (fun found next =>
      if next = start then
        if 2 ≤ path.length then keepCycle path.reverse found else found
      else if next < start ∨ maxDepth ≤ path.length ∨ next ∈ path then found
      else search g start maxDepth (next :: path) found) found
termination_by maxDepth - path.length
decreasing_by
  rename_i h
  simp only [not_or, Nat.not_le] at h
  simp only [List.length_cons]
  omega

/-- The cycles found from each of the starts in turn. -/
def searchFrom (g : Graph) (maxDepth : Nat) : (starts : List String) → Found → Found
  | [], found => found
  | start :: rest, found =>
    let found := g.search start maxDepth [start] found
    if cycleLimit ≤ found.length then found else searchFrom g maxDepth rest found

/-- Whether the nodes of one cycle are a proper part of the nodes of another. -/
def properPart (a b : List String) : Bool := a.length < b.length && a.all b.contains

/-- Order by length, then by nodes. -/
def cycleLe (a b : List String) : Bool :=
  a.length < b.length || (a.length == b.length && (Ord.compare a b).isLE)

/-- The cycles of length two up to `maxDepth` over minimal sets of nodes, each starting at its
smallest node, shorter ones first. -/
def cycles (g : Graph) (maxDepth : Nat) : List (List String) :=
  let found := (g.searchFrom maxDepth g.nodes []).reverse
  let minimal := found.filter fun (_, names) => !found.any fun (_, other) => properPart other names
  stableSort cycleLe (minimal.map (·.1))

end Graph

end GodotLint
