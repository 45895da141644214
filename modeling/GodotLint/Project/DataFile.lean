import GodotLint.Json.Read

/-!
# Data files

The ids that a JSON file declares, the ids of other entries that it names, and the resource paths
in it. Lines are found by looking for the quoted text, the first occurrence standing for all.
-/

namespace GodotLint

open Text

/-- How a data file declares its ids. -/
inductive IdSource where
  /-- As keys of the object `entries`. -/
  | entries
  /-- As `id` of the elements of arrays. -/
  | arrays
  /-- As keys of the document. -/
  | topLevelKeys
  | none
  deriving DecidableEq, Repr

/-- The name of the source in reports. -/
def IdSource.name : IdSource → String
  | .entries => "entries"
  | .arrays => "arrays"
  | .topLevelKeys => "top_level_keys"
  | .none => "none"

/-- The naming of an entry by its id. -/
structure DataReference where
  line : Nat
  field : String
  /-- Where the value stands in the document, as in `lessons[2].requires[0]`. -/
  path : String
  target : String
  deriving DecidableEq, Repr

/-- A resource path in a document. -/
structure DataResource where
  line : Nat
  target : String
  /-- Where the value stands in the document. -/
  path : String
  present : Bool
  deriving DecidableEq, Repr

/-- What is read from one data file. -/
structure DataFile where
  /-- The path from the project root. -/
  file : String
  /-- Why the file is no document. -/
  fault : Option Json.Fault := none
  idSource : IdSource := .none
  /-- The ids and their lines. -/
  ids : SortedMap Nat := .empty
  references : List DataReference := []
  resources : List DataResource := []

/-- The names by which data files are understood, on top of the built-in ones. -/
structure DataNames where
  /-- Ids that need no reference. -/
  entryPoints : List String := []
  /-- Fields that name other entries. -/
  referenceFields : List String := []
  /-- Arrays whose elements carry an id. -/
  idArrays : List String := []
  deriving DecidableEq, Repr

namespace DataFile

/-- Keys of a document that name no entry. -/
def reservedKeys : List String := ["version", "meta", "settings", "config", "schema"]

/-- Arrays of a document whose elements carry an id. -/
def idArrays : List String :=
  ["lessons", "upgrades", "towers", "enemies", "buildings", "items", "achievements", "waves",
    "levels", "skills", "quests", "abilities", "units", "research", "events"]

/-- Fields whose strings name other entries. -/
def referenceFields : List String :=
  ["requires", "prerequisite", "prerequisites", "unlocks", "upgrades_to", "next", "prev",
    "lesson_id", "tower_id", "enemy_id", "item_id", "upgrade_id", "unlocked_by", "depends_on"]

/-- Ids that need no reference. -/
def entryPoints : List String :=
  ["start", "intro", "tutorial", "main", "default", "root", "first"]

/-! ## Lines -/

/-- The text between quotation marks, without escapes. -/
def needle (value : String) : List Char := '"' :: value.toList ++ ['"']

/-- The first line that satisfies `p`, counted from one, or one if there is none. -/
def firstLine (p : List Char → Bool) (lines : List (List Char)) : Nat :=
  match lines.findIdx? p with
  | some i => i + 1
  | none => 1

/-- The line of a string. -/
def lineOfValue (lines : List (List Char)) (value : String) : Nat :=
  firstLine (contains (needle value)) lines

/-- The line of a key: a colon follows its first occurrence on the line. -/
def lineOfKey (lines : List (List Char)) (key : String) : Nat :=
  firstLine (fun line =>
    match cutAt? (needle key) line with
    | some (_, after) => (trimStart after).head? == some ':'
    | none => false) lines

/-! ## Ids -/

/-- The ids of the elements of an array. -/
def elementIds (lines : List (List Char)) (items : List Json) : List (String × Nat) :=
  items.filterMap fun item =>
    ((item.member? "id").bind Json.str?).map fun id => (id, lineOfValue lines id)

/-- The ids that a document declares and how. -/
def declaredIds (lines : List (List Char)) (names : DataNames) :
    Json → IdSource × List (String × Nat)
  | .obj members =>
    match members.lookup "entries" with
    | some (.obj entries) => (.entries, entries.map fun (key, _) => (key, lineOfKey lines key))
    | _ =>
      let arrays := (idArrays ++ names.idArrays).filterMap fun name =>
        match members.lookup name with
        | some (.arr items) => some items
        | _ => none
      if arrays.isEmpty then
        (.topLevelKeys, members.filterMap fun (key, _) =>
          if reservedKeys.contains key then none else some (key, lineOfKey lines key))
      else (.arrays, arrays.flatMap (elementIds lines))
  | .arr items =>
    let ids := elementIds lines items
    (if ids.isEmpty then .none else .arrays, ids)
  | _ => (.none, [])

/-! ## Strings of a document -/

/-- A string in a document, where it stands, and the reference field that it belongs to. -/
structure Leaf where
  path : String
  field : Option String
  value : String
  deriving DecidableEq, Repr

/-- The path of a member. -/
def memberPath (path key : String) : String := if path.isEmpty then key else path ++ "." ++ key

mutual

/-- The strings of a value in the order of the document. The elements of an array belong to the
field of the array; the members of an object to their own key. -/
def leaves (isField : String → Bool) (path : String) (field : Option String) : Json → List Leaf
  | .str s => [⟨path, field, s⟩]
  | .arr items => itemLeaves isField path field 0 items
  | .obj members => memberLeaves isField path members
  | _ => []

/-- The strings of the elements of an array from index `i` on. -/
def itemLeaves (isField : String → Bool) (path : String) (field : Option String) (i : Nat) :
    List Json → List Leaf
  | [] => []
  | v :: rest =>
    leaves isField (path ++ "[" ++ toString i ++ "]") field v ++
      itemLeaves isField path field (i + 1) rest

/-- The strings of the members of an object. -/
def memberLeaves (isField : String → Bool) (path : String) : List (String × Json) → List Leaf
  | [] => []
  | (key, v) :: rest =>
    leaves isField (memberPath path key) (if isField key then some key else none) v ++
      memberLeaves isField path rest

end

/-- What follows `res://` in a resource path. -/
def resourcePath? (value : String) : Option String :=
  (afterPrefix? "res://".toList value.toList).map str

/-- The naming of an entry by a string: it belongs to a reference field, is not empty and is no
resource path. -/
def Leaf.reference? (lines : List (List Char)) (leaf : Leaf) : Option DataReference :=
  match resourcePath? leaf.value, leaf.field with
  | none, some field =>
    if leaf.value.isEmpty then none
    else
      some { line := lineOfValue lines leaf.value, field, path := leaf.path, target := leaf.value }
  | _, _ => none

/-- The resource that a string names. -/
def Leaf.resource? (lines : List (List Char)) (files : List String) (leaf : Leaf) :
    Option DataResource :=
  (resourcePath? leaf.value).map fun rest =>
    { line := lineOfValue lines leaf.value, target := leaf.value, path := leaf.path,
      present := files.contains rest }

/-- What a document of the given lines holds. -/
def ofDocument (file : String) (lines : List (List Char)) (files : List String)
    (names : DataNames) (document : Json) : DataFile :=
  let (idSource, ids) := declaredIds lines names document
  let strings := leaves (referenceFields ++ names.referenceFields).contains "" none document
  { file, idSource
    ids := .ofList ids
    references := strings.filterMap (·.reference? lines)
    resources := strings.filterMap (·.resource? lines files) }

/-- What a data file holds, given the files of the project. -/
def parse (file : String) (text : List Char) (files : List String) (names : DataNames) :
    DataFile :=
  match Json.read text with
  | .ok document => ofDocument file (lines text) files names document
  | .error fault => { file, fault := some fault }

end DataFile

end GodotLint
