import GodotLint.Pattern.Basic
import GodotLint.Script.Function

/-!
# Markers in comments

`TODO`, `FIXME` and their kin, with the owner named in parentheses, the text that follows, the
priority that the text suggests, and the function or class in whose neighbourhood it stands.
-/

namespace GodotLint

open Text

/-- How urgent a marker sounds. -/
inductive Priority where
  | high
  | normal
  | low
  deriving DecidableEq, Repr

/-- The name of the priority in reports. -/
def Priority.name : Priority → String
  | .high => "high"
  | .normal => "normal"
  | .low => "low"

/-- A marker in a comment. -/
structure Marker where
  tag : String
  owner : Option String
  content : String
  line : Nat
  priority : Priority
  /-- The nearest function or class header at or above the marker. -/
  context : Option String
  deriving DecidableEq, Repr

namespace Marker

open Pattern

/-- The tags in the order in which they are listed. -/
def tags : List String :=
  ["TODO", "FIXME", "HACK", "XXX", "BUG", "NOTE", "OPTIMIZE", "REFACTOR"]

/-- A tag, an owner and the text of a marker. -/
def shape : Pattern :=
  .wordEdge ++ .group 1 (word tags) ++ .wordEdge ++
    .opt (.char '(' ++ .group 2 (.star (charNotOf ")")) ++ .char ')') ++ blanks ++
    .opt (.char ':') ++ blanks ++ .group 3 (.star .any)

/-- A word of urgency. -/
def urgentWord : Pattern :=
  .wordEdge ++ choice [folded "urgent", folded "asap", folded "critical",
    folded "crash" ++ .opt (folded "es"), folded "important", folded "security", folded "broken",
    folded "blocker", folded "must", folded "immediately"] ++ .wordEdge

/-- A word of leisure. -/
def leisureWord : Pattern :=
  .wordEdge ++ foldedWord ["later", "someday", "maybe", "eventually", "nice to have", "consider",
    "optional", "minor", "low priority", "could"] ++ .wordEdge

/-- A header of a function or class. -/
def contextHeader : Pattern :=
  .atStart ++ blanks ++ .opt (lit "static" ++ blanks1) ++
    .group 1 (word ["func", "class_name", "class"]) ++ blanks1 ++ .group 2 ident

/-- The priority that a text suggests: urgency outweighs leisure. -/
def priorityOf (content : List Char) : Priority :=
  if urgentWord.occursIn content then .high
  else if leisureWord.occursIn content then .low
  else .normal

/-- The context of a line, given it and the lines above, the nearest first. -/
def contextOf? : List (List Char) → Option String
  | [] => none
  | line :: above =>
    match contextHeader.find? line with
    | some m => some (str (m.group 1) ++ " " ++ str (m.group 2))
    | none => contextOf? above

/-- The marker on a line, given the lines above it, the nearest first. -/
def ofLine? (above : List (List Char)) (raw : List Char) (line : Nat) : Option Marker := do
  let comment ← Line.comment? raw
  let m ← shape.find? comment
  let content := trim (m.group 3)
  some
    { tag := str (m.group 1)
      owner := (m.group? 2).map fun owner => str (trim owner.chars)
      content := str content
      line
      priority := priorityOf content
      context := contextOf? (raw :: above) }

/-- The markers among the lines from `line` on, given the lines above, the nearest first. -/
def scan (above : List (List Char)) (line : Nat) : List (List Char) → List Marker
  | [] => []
  | raw :: rest => (ofLine? above raw line).toList ++ scan (raw :: above) (line + 1) rest

/-- The markers of a script. -/
def ofLines (lines : List (List Char)) : List Marker := scan [] 1 lines

end Marker

end GodotLint
