import GodotLint.Disk.Basic

/-!
# Walks

A walk visits the files below a path, directory by directory, in the order of their names, and
follows links. Directories whose name starts with a point are not entered. A link that cannot be
followed, or that leads back to a directory that the walk is in, is a fault of the walk, which then
goes on.
-/

namespace GodotLint

open Text

/-- Why a walk cannot visit a path. -/
inductive WalkFault where
  | unreachable (path : String) (fault : DiskFault)
  /-- A link leads to a directory that the walk is in. -/
  | loop (path ancestor : String)
  deriving DecidableEq, Repr

/-- The words for a fault. -/
def WalkFault.message : WalkFault → String
  | .unreachable path fault => "IO error for operation on " ++ path ++ ": " ++ fault.message
  | .loop path ancestor =>
    "File system loop found: " ++ path ++ " points to an ancestor " ++ ancestor

/-- What a walk comes upon, with the names that lead to it from its start. -/
inductive WalkStep where
  | file (names : List String)
  | fault (names : List String) (what : WalkFault)
  deriving DecidableEq, Repr

namespace Walk

/-- A directory that a walk is in. -/
structure Visit where
  /-- The names that lead to it from the start of the walk. -/
  names : List String
  place : Place
  deriving DecidableEq, Repr

/-- The path at the end of names from the start of a walk. -/
def pathOf (start : String) (names : List String) : String :=
  str (names.foldl (fun path name => Path.under path name.toList) start.toList)

/-- Whether a directory is not entered. The start of a walk always is. -/
def isHidden (names : List String) : Bool :=
  match names.getLast? with
  | some name => name.toList.head? == some '.'
  | none => false

mutual

/-- The steps of a walk through a tree at a place. `visits` are the directories that the walk is in,
innermost first, and `behindLink` tells the steps behind a link. -/
def steps (behindLink : List Visit → List String → List WalkStep) (visits : List Visit)
    (names : List String) (place : Place) : FileTree → List WalkStep
  | .file _ => [.file names]
  | .link _ => behindLink visits names
  | .directory entries =>
    if isHidden names then []
    else stepsOfEntries behindLink (⟨names, place⟩ :: visits) names place entries

/-- The steps of a walk through the entries of a directory at a place. -/
def stepsOfEntries (behindLink : List Visit → List String → List WalkStep) (visits : List Visit)
    (names : List String) (place : Place) : List (String × FileTree) → List WalkStep
  | [] => []
  | (name, t) :: rest =>
    steps behindLink visits (names ++ [name]) (place ++ [name]) t ++
      stepsOfEntries behindLink visits names place rest

end

/-- The steps of a walk to where names lead, past links. A link is followed only into a directory
that the walk is not in, so that the number of directories is enough for `count`. -/
def stepsBehind (d : Disk) (start : String) :
    (count : Nat) → List Visit → List String → List WalkStep
  | 0, _, _ => []
  | count + 1, visits, names =>
    let path := pathOf start names
    match d.locate path with
    | .error fault => [.fault names (.unreachable path fault)]
    | .ok place =>
      match d.root.at? place with
      | some (.directory entries) =>
        match visits.find? (·.place == place) with
        | some visit => [.fault names (.loop path (pathOf start visit.names))]
        | none => steps (stepsBehind d start count) visits names place (.directory entries)
      | _ => [.file names]

end Walk

/-- The steps of a walk from a path. -/
def Disk.walk (d : Disk) (start : String) : List WalkStep :=
  Walk.stepsBehind d start (d.root.size + 1) [] []

end GodotLint
