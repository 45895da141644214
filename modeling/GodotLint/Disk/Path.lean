import GodotLint.Text.Basic

/-!
# Paths as text

A path is a text of segments with `/` between them. A segment that is empty or `.` leads nowhere;
paths keep such segments as they were written, and comparisons skip them. None of these functions
looks at a disk.
-/

namespace GodotLint.Path

open Text

/-! ## Segments -/

/-- The segments of a path. -/
def segments (path : List Char) : List (List Char) := splitAt '/' path

/-- The last segment. -/
def fileName (path : List Char) : List Char := afterLast '/' path

/-- The extension of a file name: what follows its last point, if something precedes it. -/
def extension? (path : List Char) : Option (List Char) :=
  let name := fileName path
  match (name.reverse.dropWhile (· != '.')) with
  | [] => none
  | [_] => none
  | _ :: _ => some (afterLast '.' name)

/-! ## Directories -/

/-- A path with `/` in place of each backslash. -/
def withSlashes (path : List Char) : List Char := replaceChar '\\' ['/'] path

/-- A path that goes on from a directory. An absolute path stands for itself. -/
def under (directory path : List Char) : List Char :=
  if path.head? == some '/' || directory.isEmpty then path
  else if directory.getLast? == some '/' then directory ++ path
  else directory ++ '/' :: path

/-- Whether a segment leads nowhere: it is empty or `.`. -/
def isIdle (segment : List Char) : Bool := segment.isEmpty || segment == ['.']

/-- The directory of an absolute path; the root is in none. -/
def parent? (path : List Char) : Option (List Char) :=
  match dropEndWhile isIdle (segments path).tail with
  | [] => none
  | inner => some ('/' :: join ['/'] (dropEndWhile isIdle inner.dropLast))

/-- An absolute path and the directories above it, innermost first; `count` bounds their number. -/
def ancestorsFrom : (count : Nat) → List Char → List (List Char)
  | 0, _ => []
  | count + 1, path => path :: ((parent? path).map (ancestorsFrom count)).getD []

/-- An absolute path and the directories above it, innermost first. -/
def ancestors (path : List Char) : List (List Char) :=
  ancestorsFrom (segments path).length path

/-- What is left of segments behind the given steps, idle segments on the way being skipped. -/
def afterSteps? : (steps segments : List (List Char)) → Option (List (List Char))
  | [], segments => some segments
  | _ :: _, [] => none
  | step :: steps, segment :: segments =>
    if segment == step then afterSteps? steps segments
    else if isIdle segment then afterSteps? (step :: steps) segments
    else none

/-- The steps of a path: its segments without the idle ones, except that the first one counts where
it tells an absolute path or is the `.` of a relative one. -/
def steps (path : List Char) : List (List Char) :=
  match segments path with
  | [] => []
  | first :: rest =>
    (if first.isEmpty && rest.isEmpty then [] else [first]) ++ rest.filter (!isIdle ·)

/-- What is left of a path below a directory, or the path itself if it does not lie there. Idle
segments inside of what is left stay. -/
def below (directory path : List Char) : List Char :=
  match steps directory, segments path with
  | [], _ => path
  | _, [] => path
  | step :: more, first :: rest =>
    if first != step then path
    else
      match afterSteps? more rest with
      | none => path
      | some left => join ['/'] (dropEndWhile isIdle (left.dropWhile isIdle))

end GodotLint.Path
