import GodotLint.Fix.Default
import GodotLint.Script.Access
import GodotLint.Script.Preload

/-!
# Fixes

A fixer changes or removes lines of a script. The text keeps its line ends, as far as they are of
one sort, and whether its last line is ended.
-/

namespace GodotLint

open Text

/-- A line that was changed. -/
structure LineChange where
  line : Nat
  before : List Char
  /-- The new line, none if it was removed. -/
  after : Option (List Char)
  deriving DecidableEq, Repr

/-- A text after a fix, and what was changed. -/
structure Fixed where
  text : List Char
  changes : List LineChange
  deriving DecidableEq, Repr

/-- Whether anything was changed. -/
def Fixed.isChanged (f : Fixed) : Bool := !f.changes.isEmpty

/-- A way to change the lines of a script. -/
structure Fixer where
  id : String
  /-- The new lines in place of the old ones, none for a line that is removed. -/
  revise : List (List Char) → List (Option (List Char))

namespace Fixer

/-! ## Texts -/

/-- The change of a line, if it was changed. -/
def change? (line : Nat) (before : List Char) (after : Option (List Char)) : Option LineChange :=
  if after == some before then none else some { line, before, after }

/-- The line end of a text: with a carriage return if one line end has it. -/
def lineEnd (text : List Char) : List Char :=
  if contains ['\r', '\n'] text then ['\r', '\n'] else ['\n']

/-- Applies a fixer to a text. -/
def apply (f : Fixer) (text : List Char) : Fixed :=
  let old := lines text
  let new := f.revise old
  let changes := ((old.zip new).zipIdx 1).filterMap fun ((before, after), line) =>
    change? line before after
  if changes.isEmpty then { text, changes }
  else
    let ending := lineEnd text
    { text := join ending (new.filterMap fun line => line) ++
        if endsWithLineFeed text then ending else []
      changes }

/-! ## Accesses of dictionaries -/

/-- Whether another subscript follows an access on a line. -/
def isSubscripted (line : List Char) (a : Access) : Bool :=
  (trimStart (dropBytes a.stop line)).head? == some '['

/-- Whether an access is one that the fix looks at: by brackets, and not written to. -/
def isRead (a : Access) : Bool := a.form == .bracket && !a.isAssignment

/-- A line with one access replaced by a call of `get`, unless another subscript follows it. -/
def replaceAccess (a : Access) (line : List Char) : List Char :=
  if isSubscripted line a then line
  else takeBytes a.column line ++ (getExpression a.receiver a.key).toList ++ dropBytes a.stop line

/-- A line with its accesses replaced, the last one first, so that the places of the others stay
what they are. -/
def replaceAccesses (line : List Char) (number : Nat) : List Char :=
  let accesses := stableSort Access.le (Script.accessesOfLine line number)
  (accesses.filter isRead).foldr replaceAccess line

/-- Reads dictionaries by `get` with a default. -/
def dictAccess : Fixer where
  id := "dict-access"
  revise lines := (lines.zipIdx 1).map fun (line, number) => some (replaceAccesses line number)

/-! ## Unused preloads -/

/-- Removes constants that preload a resource for nothing. -/
def unusedPreloads : Fixer where
  id := "unused-preloads"
  revise lines :=
    let unused := (Script.unusedPreloads lines).map (·.1)
    lines.zipIdx.map fun (line, index) => if unused.contains index then none else some line

/-! ## The fixers -/

/-- Every fixer. -/
def all : List Fixer := [dictAccess, unusedPreloads]

/-- The fixer of an id, in which an underscore stands for a dash. -/
def find? (id : String) : Option Fixer :=
  let wanted := str (replaceChar '_' ['-'] id.toList)
  all.find? (·.id == wanted)

end Fixer

end GodotLint
