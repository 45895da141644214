import GodotLint.Text.Basic
import GodotLint.Yaml.Fault

/-!
# Places in a YAML text

A cursor is what is left of a text and the place where that starts. A scan moves a cursor on or
stops with a fault.
-/

namespace GodotLint.Yaml

open Text

/-! ## Characters -/

/-- Line breaks. -/
def isBreak (c : Char) : Bool :=
  c == '\n' || c == '\r' || c == '\u0085' || c == '\u2028' || c == '\u2029'

/-- Blanks within a line. -/
def isSpaceOrTab (c : Char) : Bool := c == ' ' || c == '\t'

/-- Characters of names. -/
def isNameChar (c : Char) : Bool := isAsciiAlnum c || c == '_' || c == '-'

/-- A blank, a line break or the end of the text. -/
def isGap (c : Option Char) : Bool := c.all fun c => isSpaceOrTab c || isBreak c

/-- A line break or the end of the text. -/
def isLineEnd (c : Option Char) : Bool := c.all isBreak

/-- Characters that a text may hold. -/
def isAllowed (c : Char) : Bool :=
  let n := c.toNat
  n == 0x09 || n == 0x0A || n == 0x0D || (0x20 ≤ n && n ≤ 0x7E) || n == 0x85 ||
    (0xA0 ≤ n && n ≤ 0xD7FF) || (0xE000 ≤ n && n ≤ 0xFFFD) || 0x10000 ≤ n

/-! ## Cursors -/

/-- What is left of a text. -/
structure Cursor where
  rest : List Char
  mark : Mark := {}
  deriving DecidableEq, Repr

namespace Cursor

/-- The character some places further on. -/
def ahead (c : Cursor) (n : Nat) : Option Char := c.rest[n]?

/-- The next character. -/
def head (c : Cursor) : Option Char := c.rest.head?

/-- Whether the next character is the given one. -/
def sees (c : Cursor) (x : Char) : Bool := c.head == some x

/-- The cursor after the next character, which is no line break. -/
def skip (c : Cursor) : Cursor := ⟨c.rest.tail, c.mark.next⟩

/-- The cursor after some characters, none of them a line break. -/
def skipMany (c : Cursor) (n : Nat) : Cursor :=
  ⟨c.rest.drop n, { c.mark with index := c.mark.index + n, column := c.mark.column + n }⟩

/-- The characters up to the first that does not satisfy `p`, which no line break does. -/
def run (c : Cursor) (p : Char → Bool) : List Char := c.rest.takeWhile p

/-- The cursor after the characters up to the first that does not satisfy `p`. -/
def skipRun (c : Cursor) (p : Char → Bool) : Cursor := c.skipMany (c.run p).length

/-- The cursor at the end of the line. -/
def skipToBreak (c : Cursor) : Cursor := c.skipRun (!isBreak ·)

/-- The cursor after a line break of `n` characters. -/
def newLine (c : Cursor) (n : Nat) : Cursor :=
  ⟨c.rest.drop n, { index := c.mark.index + n, line := c.mark.line + 1 }⟩

/-- The line break that comes next as it is kept in texts, and the cursor after it. -/
def takeBreak (c : Cursor) : List Char × Cursor :=
  match c.rest with
  | '\r' :: '\n' :: _ => (['\n'], c.newLine 2)
  | x :: _ =>
    if x == '\u2028' || x == '\u2029' then ([x], c.newLine 1)
    else if isBreak x then (['\n'], c.newLine 1)
    else ([], c)
  | [] => ([], c)

/-- Whether a line starts here with a mark between documents. -/
def atDocumentMark (c : Cursor) : Bool :=
  c.mark.column = 0 &&
    (startsWith ['-', '-', '-'] c.rest || startsWith ['.', '.', '.'] c.rest) && isGap (c.ahead 3)

/-- A problem at this place. -/
def fault (c : Cursor) (problem : Problem) (during : Option (Activity × Mark)) : Fault :=
  .problem problem c.mark during

end Cursor

/-! ## Scans -/

/-- A part of a scanner. -/
abbrev Scan := StateT Cursor (Except Fault)

namespace Scan

/-- Stops at the current place. -/
def fail (problem : Problem) (activity : Activity) (start : Mark) : Scan α := fun c =>
  .error (c.fault problem (some (activity, start)))

/-- Moves the cursor. -/
def move (f : Cursor → Cursor) : Scan Unit := modify f

/-- Takes the characters up to the first that does not satisfy `p`, which no line break does. -/
def takeRun (p : Char → Bool) : Scan (List Char) := fun c => .ok (c.run p, c.skipRun p)

/-- Takes the line break that comes next. -/
def takeBreak : Scan (List Char) := fun c => .ok c.takeBreak

/-- Skips blanks, a comment and the line break. -/
def finishLine (activity : Activity) (start : Mark) : Scan Unit := do
  move (·.skipRun isSpaceOrTab)
  if (← get).sees '#' then move (·.skipToBreak)
  if isLineEnd (← get).head then
    let _ ← takeBreak
  else fail .trailingText activity start

end Scan

end GodotLint.Yaml
