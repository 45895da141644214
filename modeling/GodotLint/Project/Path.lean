import GodotLint.Disk.Path

/-!
# Paths of a project

Files are named by paths relative to the project root, with `/` between the segments. A resource
reference is such a path after `res://`, or one relative to the directory of the file that makes
the reference.
-/

namespace GodotLint.Path

open Text

/-- What precedes the path of a resource. -/
def resourcePrefix : List Char := "res://".toList

/-- Takes one segment onto a path whose segments are given innermost first: `.` and the empty
segment stay, `..` leaves a directory, and the root has none above it. -/
def enter (path : List (List Char)) (segment : List Char) : List (List Char) :=
  if isIdle segment then path
  else if segment == ['.', '.'] then path.drop 1
  else segment :: path

/-- The path without empty, `.` and `..` segments. -/
def normalize (path : List Char) : List Char :=
  join ['/'] ((segments path).foldl enter []).reverse

/-- The directory of a file, empty for a file at the root. -/
def directory (path : List Char) : List Char :=
  join ['/'] (segments path).dropLast

/-- The project path that a reference from a file names, or none where another scheme is used. -/
def resolve? (source target : List Char) : Option (List Char) :=
  match afterPrefix? resourcePrefix target with
  | some rest => some (normalize rest)
  | none =>
    if contains "://".toList target || startsWith "uid:".toList target then none
    else
      let dir := directory source
      some (normalize (if dir.isEmpty then target else dir ++ '/' :: target))

/-- The project path that a reference from a file names. -/
def resolveString? (source target : String) : Option String :=
  (resolve? source.toList target.toList).map str

end GodotLint.Path
