import GodotLint.Line.Basic
import GodotLint.Pattern.Basic

/-!
# Unused preloaded constants

A constant that preloads a resource, on a line of its own at the top level, is unused if its name
occurs as a word on no other line of code.
-/

namespace GodotLint.Script

open Text Pattern

/-- A constant that preloads a resource; its name is group 1. -/
def preloadedConstant : Pattern :=
  .atStart ++ lit "const" ++ blanks1 ++ .group 1 ident ++ blanks ++
    .opt (.char ':' ++ blanks ++ ident) ++ blanks ++ .opt (.char ':') ++ .char '=' ++ blanks ++
    lit "preload" ++ blanks ++ .char '(' ++ blanks ++
    choice [.char '"' ++ .star (charNotOf "\"") ++ .char '"',
      .char '\x27' ++ .star (charNotOf "'") ++ .char '\x27'] ++ blanks ++ .char ')' ++ blanks ++
    .atEnd

/-- The name of the constant that a line preloads. -/
def preloadedName? (line : List Char) : Option (List Char) :=
  (preloadedConstant.find? (trimEnd (Line.code line))).map (·.group 1)

/-- Whether a name occurs as a word in the code of a line. -/
def mentionsWord (name line : List Char) : Bool :=
  Line.containsWord (Line.mask (Line.code line)) name

/-- Whether a name occurs in the code of a line other than the one at `index`. -/
def isUsedElsewhere (lines : List (List Char)) (index : Nat) (name : List Char) : Bool :=
  lines.zipIdx.any fun (line, i) => i != index && mentionsWord name line

/-- The indices from zero of the lines that preload an unused constant, and its name. -/
def unusedPreloads (lines : List (List Char)) : List (Nat × String) :=
  lines.zipIdx.filterMap fun (line, index) =>
    (preloadedName? line).bind fun name =>
      if isUsedElsewhere lines index name then none else some (index, str name)

end GodotLint.Script
