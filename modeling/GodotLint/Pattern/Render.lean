import GodotLint.Pattern.Basic

/-!
# Written form of patterns

The usual notation for regular expressions. A group that is remembered is written `(…)`, one that
only holds parts together `(?:…)`.
-/

namespace GodotLint

/-- An entry of a class as written between brackets. -/
def ClassItem.render : ClassItem → String
  | .only c => String.singleton c
  | .range first last => String.ofList [first, '-', last]
  | .blank => "\\s"
  | .digit => "\\d"
  | .word => "\\w"

namespace Pattern

/-- Characters that mean something in the notation and are written after a backslash. -/
def specialChars : List Char := "\\.+*?()|[]\x7b\x7d^$".toList

/-- What a written pattern may be put into without a group around it. -/
inductive Place where
  /-- Alone or as an alternative. -/
  | alternative
  /-- Next to other patterns. -/
  | sequence
  /-- Before a mark of repetition. -/
  | operand
  deriving DecidableEq, Repr

/-- Puts a group around a written pattern if `needed`. -/
def grouped (needed : Bool) (s : String) : String := if needed then "(?:" ++ s ++ ")" else s

/-- The written form of a pattern at a place. -/
def renderAt : Pattern → Place → String
  | .empty, _ => ""
  | .char c, _ => if specialChars.contains c then String.ofList ['\\', c] else String.singleton c
  | .any, _ => "."
  | .oneOf [.blank], _ => "\\s"
  | .oneOf [.digit], _ => "\\d"
  | .oneOf [.word], _ => "\\w"
  | .oneOf items, _ => "[" ++ String.join (items.map (·.render)) ++ "]"
  | .noneOf items, _ => "[^" ++ String.join (items.map (·.render)) ++ "]"
  | .atStart, _ => "^"
  | .atEnd, _ => "$"
  | .wordEdge, _ => "\\b"
  | .seq p q, at_ => grouped (at_ == .operand) (p.renderAt .sequence ++ q.renderAt .sequence)
  | .alt p q, at_ =>
    grouped (at_ != .alternative) (p.renderAt .alternative ++ "|" ++ q.renderAt .alternative)
  | .opt p, at_ => grouped (at_ == .operand) (p.renderAt .operand ++ "?")
  | .star p, at_ => grouped (at_ == .operand) (p.renderAt .operand ++ "*")
  | .plus p, at_ => grouped (at_ == .operand) (p.renderAt .operand ++ "+")
  | .lazyPlus p, at_ => grouped (at_ == .operand) (p.renderAt .operand ++ "+?")
  | .group _ p, _ => "(" ++ p.renderAt .alternative ++ ")"

/-- The written form of a pattern. -/
def render (p : Pattern) : String := p.renderAt .alternative

end Pattern

end GodotLint
