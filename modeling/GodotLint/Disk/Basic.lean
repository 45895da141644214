import GodotLint.Disk.Path
import GodotLint.Ordering

/-!
# Disks

A disk is a tree of files, links and directories, and the directory in which a program works. A path
is followed from there, name by name; a link puts its target in place of its name. Every operation
that can fail says why in the words of the system.
-/

namespace GodotLint

open Text

/-! ## Trees -/

/-- A tree of files. -/
inductive FileTree where
  | file (content : List UInt8)
  /-- A link to the place that a path leads to. -/
  | link (target : String)
  /-- A directory, its entries in rising order of their names. -/
  | directory (entries : List (String × FileTree))

/-- A place in a tree: the names of the directories that lead to it, and its own. -/
abbrev Place := List String

namespace FileTree

/-- The tree at a place. Links are not followed. -/
def at? (t : FileTree) : Place → Option FileTree
  | [] => some t
  | name :: rest =>
    match t with
    | .directory entries => (entries.lookup name).bind fun inner => inner.at? rest
    | _ => none

/-- Puts a tree at a place. Directories that are missing on the way are made; where a file or a link
is in the way, nothing changes. -/
def put (t : FileTree) (place : Place) (new : FileTree) : FileTree :=
  match place with
  | [] => new
  | name :: rest =>
    match t with
    | .directory entries =>
      .directory (SortedMap.alterEntries name
        (fun old => put (old.getD (.directory [])) rest new) entries)
    | t => t

/-- Takes away what is at a place. -/
def erase (t : FileTree) (place : Place) : FileTree :=
  match place with
  | [] => t
  | name :: rest =>
    match t with
    | .directory entries =>
      if rest.isEmpty then .directory (entries.filter (·.1 != name))
      else
        .directory (entries.map fun (n, inner) =>
          (n, if n == name then inner.erase rest else inner))
    | t => t

mutual

/-- The number of files, links and directories. -/
def size : FileTree → Nat
  | .file _ => 1
  | .link _ => 1
  | .directory entries => 1 + sizeOfEntries entries

/-- The number of files, links and directories among entries. -/
def sizeOfEntries : List (String × FileTree) → Nat
  | [] => 0
  | (_, t) :: rest => t.size + sizeOfEntries rest

end

mutual

/-- The files of a tree at a place, in the order of the tree. Links are none. -/
def files (place : Place) : FileTree → List (Place × List UInt8)
  | .file content => [(place, content)]
  | .link _ => []
  | .directory entries => filesOfEntries place entries

/-- The files of the entries of a directory at a place. -/
def filesOfEntries (place : Place) : List (String × FileTree) → List (Place × List UInt8)
  | [] => []
  | (name, t) :: rest => t.files (place ++ [name]) ++ filesOfEntries place rest

end

end FileTree

/-! ## Faults -/

/-- Why an operation on a disk fails. -/
inductive DiskFault where
  | noEntry
  | notDirectory
  | isDirectory
  | tooManyLinks
  | nameTooLong
  /-- A path with a character that no name has. -/
  | zeroCharacter
  deriving DecidableEq, Repr

/-- The words of the system for a fault. -/
def DiskFault.message : DiskFault → String
  | .noEntry => "No such file or directory (os error 2)"
  | .notDirectory => "Not a directory (os error 20)"
  | .isDirectory => "Is a directory (os error 21)"
  | .tooManyLinks => "Too many levels of symbolic links (os error 40)"
  | .nameTooLong => "File name too long (os error 36)"
  | .zeroCharacter => "file name contained an unexpected NUL byte"

/-! ## Disks -/

/-- A disk and the directory in which a program works. -/
structure Disk where
  /-- The tree of everything. -/
  root : FileTree
  /-- The place of the directory in which the program works. -/
  here : Place

namespace Disk

/-- The longest name of a file in bytes. -/
def maxName : Nat := 255

/-- The number of bytes from which on a path is too long. -/
def maxPath : Nat := 4096

/-- The number of links on the way to one place. -/
def maxLinks : Nat := 40

/-- An absolute path to a place. -/
def pathOf (place : Place) : String := "/" ++ joinWith "/" place

/-- The path of the directory in which the program works. -/
def currentPath (d : Disk) : String := pathOf d.here

/-! ### Following a path -/

/-- The segments of a path as names. -/
def namesOf (path : String) : List String := (Path.segments path.toList).map str

/-- Whether a segment leads nowhere. -/
def isIdle (name : String) : Bool := name == "" || name == "."

/-- Where a path starts that is taken in a directory. -/
def startOf (path : String) (directory : Place) : Place :=
  if path.startsWith "/" then [] else directory

/-- Goes from a place through names. `behindLink` goes on where a link is met: it is given the
directory of the link, its target and the names that are left. -/
def descend (root : FileTree)
    (behindLink : Place → String → List String → Except DiskFault Place) :
    Place → List String → Except DiskFault Place
  | place, [] => .ok place
  | place, name :: rest =>
    match root.at? place with
    | some (.directory entries) =>
      if isIdle name then descend root behindLink place rest
      else if name == ".." then descend root behindLink place.dropLast rest
      else if maxName < name.utf8ByteSize then .error .nameTooLong
      else
        match entries.lookup name with
        | none => .error .noEntry
        | some (.link target) => behindLink place target rest
        | some _ => descend root behindLink (place ++ [name]) rest
    | _ => .error .notDirectory

/-- Goes from a place through names, past at most `links` links. -/
def follow (root : FileTree) : (links : Nat) → Place → List String → Except DiskFault Place
  | 0 => descend root fun _ _ _ => .error .tooManyLinks
  | links + 1 => descend root fun directory target rest =>
    follow root links (startOf target directory) (namesOf target ++ rest)

/-- The fault of a path that no file can have. -/
def pathFault? (path : String) : Option DiskFault :=
  if path.toList.contains '\x00' then some .zeroCharacter
  else if path.isEmpty then some .noEntry
  else if maxPath ≤ path.utf8ByteSize then some .nameTooLong
  else none

/-- The place that a path leads to. -/
def locate (d : Disk) (path : String) : Except DiskFault Place :=
  match pathFault? path with
  | some fault => .error fault
  | none => follow d.root maxLinks (startOf path d.here) (namesOf path)

/-- What a path leads to. -/
def node (d : Disk) (path : String) : Except DiskFault FileTree := do
  match d.root.at? (← d.locate path) with
  | some t => return t
  | none => throw .noEntry

/-- Whether a path leads to a file. -/
def isFile (d : Disk) (path : String) : Bool :=
  match d.node path with
  | .ok (.file _) => true
  | _ => false

/-- Whether a path leads to a directory. -/
def isDirectory (d : Disk) (path : String) : Bool :=
  match d.node path with
  | .ok (.directory _) => true
  | _ => false

/-! ### Reading and writing -/

/-- The content of a file. -/
def read (d : Disk) (path : String) : Except DiskFault (List UInt8) := do
  match ← d.node path with
  | .file content => return content
  | .directory _ => throw .isDirectory
  | .link _ => throw .tooManyLinks

/-- The place of the file that names lead to from a place, whether it is there or is still to be
made. Only a name that ends the path can be that of a file. -/
def fileAt (root : FileTree) : (links : Nat) → Place → List String → Except DiskFault Place
  | links, place, names => do
    let inner := dropEndWhile (· == "") names
    let directory ← follow root links place inner.dropLast
    match root.at? directory, inner.getLast? with
    | some (.directory entries), some name =>
      if inner.length < names.length || name == "." || name == ".." then throw .isDirectory
      else if maxName < name.utf8ByteSize then throw .nameTooLong
      else
        match entries.lookup name, links with
        | some (.link _), 0 => throw .tooManyLinks
        | some (.link target), links + 1 =>
          fileAt root links (startOf target directory) (namesOf target)
        | some (.directory _), _ => throw .isDirectory
        | _, _ => return directory ++ [name]
    | some (.directory _), none => throw .isDirectory
    | _, _ => throw .notDirectory

/-- Writes a file, which is made if it is not there. -/
def write (d : Disk) (path : String) (content : List UInt8) : Except DiskFault Disk :=
  match pathFault? path with
  | some fault => .error fault
  | none => do
    let place ← fileAt d.root maxLinks (startOf path d.here) (namesOf path)
    return { d with root := d.root.put place (.file content) }

/-! ### Changing the tree -/

/-- The directory that a path lies in, and its name there. -/
def entryOf (d : Disk) (path : String) : Except DiskFault (Place × String) :=
  match pathFault? path with
  | some fault => .error fault
  | none => do
    let names := dropEndWhile isIdle (namesOf path)
    let directory ← follow d.root maxLinks (startOf path d.here) names.dropLast
    match names.getLast? with
    | some name => return (directory, name)
    | none => throw .isDirectory

/-- Makes the directories of some names below a place, as far as they are not there. -/
def makeAll (place : Place) : List String → FileTree → Except DiskFault FileTree
  | [], t => .ok t
  | name :: rest, t =>
    match follow t maxLinks place [name] with
    | .ok inner => makeAll inner rest t
    | .error .noEntry => makeAll (place ++ [name]) rest (t.put (place ++ [name]) (.directory []))
    | .error fault => .error fault

/-- Makes a directory and those above it, as far as they are not there. -/
def makeDirectories (d : Disk) (path : String) : Except DiskFault Disk := do
  return { d with root := ← makeAll (startOf path d.here) (namesOf path) d.root }

/-- Makes a link. -/
def makeLink (d : Disk) (path target : String) : Except DiskFault Disk := do
  let (directory, name) ← d.entryOf path
  return { d with root := d.root.put (directory ++ [name]) (.link target) }

/-- Takes away a file or a link. -/
def remove (d : Disk) (path : String) : Except DiskFault Disk := do
  let (directory, name) ← d.entryOf path
  return { d with root := d.root.erase (directory ++ [name]) }

end Disk

end GodotLint
