import GodotLint.Check.Basic
import GodotLint.Naming.Words

/-!
# Pitfalls of the engine

A pitfall is a pattern of a line of code that the engine no longer knows, or that does something
else than it seems. Some matter only in functions that run in every frame, or before a node is in
the tree.
-/

namespace GodotLint

/-- The group of a pitfall. -/
inductive PitfallGroup where
  | deprecated
  | mistakes
  | performance
  | lifecycle
  /-- Looked for only on request. -/
  | strict
  deriving DecidableEq, Repr

/-- The name of the group in reports. -/
def PitfallGroup.name : PitfallGroup → String
  | .deprecated => "deprecated"
  | .mistakes => "mistakes"
  | .performance => "performance"
  | .lifecycle => "lifecycle"
  | .strict => "strict"

/-- Where a pitfall matters. -/
inductive PitfallScope where
  | anywhere
  /-- In functions that run in every frame. -/
  | everyFrame
  /-- In the constructor, before the node is in the tree. -/
  | construction
  deriving DecidableEq, Repr

namespace PitfallScope

/-- Whether a line in a function, if it is in one, is in the scope. -/
def holds : PitfallScope → Option String → Bool
  | .anywhere, _ => true
  | .everyFrame, function => (Naming.frameHook? function).isSome
  | .construction, function => function == some "_init"

end PitfallScope

/-- What makes a match a finding, and how it is reported. -/
inductive PitfallMessage where
  /-- Every match, with the same words. -/
  | always (text : String)
  /-- A match whose first two groups hold the same text. -/
  | sameSides
  deriving DecidableEq, Repr

/-- A pitfall. -/
structure Pitfall where
  id : String
  group : PitfallGroup
  scope : PitfallScope := .anywhere
  pattern : Pattern
  message : PitfallMessage
  severity : Severity := .warning
  suggestion : Option String := none

namespace PitfallMessage

/-- The words that do not depend on the match. -/
def fixedText : PitfallMessage → String
  | .always text => text
  | .sameSides => ""

/-- The words for a match, if it is a finding. -/
def text? (m : PitfallMessage) (found : Pattern.Match) : Option String :=
  match m with
  | .always text => some text
  | .sameSides =>
    if found.group 1 == found.group 2 then
      some ("'" ++ str (found.group 1) ++ "' is assigned to itself")
    else none

end PitfallMessage

namespace Pitfall

/-- The words for a pitfall on a line of code inside `function`: the first match counts, unless it
starts inside a literal. -/
def messageOn? (p : Pitfall) (code : List Char) (function : Option String) : Option String :=
  if !p.scope.holds function then none
  else
    (p.pattern.find? code).bind fun found =>
      if Line.isInsideLiteral code found.start then none else p.message.text? found

end Pitfall

end GodotLint
