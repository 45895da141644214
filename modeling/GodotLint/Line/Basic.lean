import GodotLint.Text.Basic

/-!
# Lines of a script

What can be said of one line without its neighbours: its indentation, where its comment starts,
and which of its characters lie inside string literals. One small machine, `Quoting.next`, reads
a line from left to right and is the only judge of what is quoted; the comment mark, the place
test and the masking of literals all read its states.
-/

namespace GodotLint

open Text

/-- Where a reader of a line stands with respect to string literals. -/
inductive Quoting where
  /-- Outside every literal. -/
  | outside
  /-- Inside a literal that `mark` opened. -/
  | inside (mark : Char)
  /-- Inside a literal that `mark` opened, just after a backslash. -/
  | escaped (mark : Char)
  deriving DecidableEq, Repr

namespace Quoting

/-- Inside a literal, its opening mark behind and its closing mark ahead. -/
def isInside : Quoting → Bool
  | .outside => false
  | .inside _ => true
  | .escaped _ => true

/-- The state after a character. A literal closes at the mark that opened it, unless a backslash
stands before the mark. -/
def next : Quoting → Char → Quoting
  | .outside, c => if c == '"' || c == '\x27' then .inside c else .outside
  | .inside mark, c =>
    if c == '\\' then .escaped mark else if c == mark then .outside else .inside mark
  | .escaped mark, _ => .inside mark

end Quoting

namespace Line

/-- Columns that one tab of indentation stands for. -/
def tabWidth : Nat := 4

/-- Columns of indentation: one for each leading space and `tabWidth` for each leading tab. -/
def indent : List Char → Nat
  | ' ' :: rest => indent rest + 1
  | '\t' :: rest => indent rest + tabWidth
  | _ => 0

/-! ## Comments -/

/-- A line cut at its comment mark: the code, and the comment text after the mark if there is
one. -/
def cutComment : Quoting → List Char → List Char × Option (List Char)
  | _, [] => ([], none)
  | .outside, '#' :: rest => ([], some rest)
  | q, c :: rest =>
    let (code, comment) := cutComment (q.next c) rest
    (c :: code, comment)

/-- The line without its comment. -/
def code (line : List Char) : List Char := (cutComment .outside line).1

/-- The text after the comment mark. -/
def comment? (line : List Char) : Option (List Char) := (cutComment .outside line).2

/-- The byte offset of the comment mark: the first `#` outside every literal. -/
def commentStart? (line : List Char) : Option Nat :=
  (comment? line).map fun _ => width (code line)

/-- No code on the line: it is blank or holds only a comment. -/
def isBlankOrComment (line : List Char) : Bool := isAllBlank (code line)

/-! ## String literals -/

/-- The state of the reader before the character at byte offset `offset`, having read `rest` from
state `q`. -/
def quotingAt : Quoting → List Char → (offset : Nat) → Quoting
  | q, [], _ => q
  | q, c :: rest, offset =>
    if offset = 0 then q else quotingAt (q.next c) rest (offset - c.utf8Size)

/-- Whether a byte offset lies inside a string literal. -/
def isInsideLiteral (line : List Char) (offset : Nat) : Bool :=
  (quotingAt .outside line offset).isInside

/-- The line read from state `q`, with the contents of literals blanked byte by byte. -/
def maskFrom : Quoting → List Char → List Char
  | _, [] => []
  | q, c :: rest =>
    (if q.isInside && (q.next c).isInside then List.replicate c.utf8Size ' ' else [c]) ++
      maskFrom (q.next c) rest

/-- The line with the contents of its literals replaced by spaces. Quotation marks and byte
offsets stay. -/
def mask (line : List Char) : List Char := maskFrom .outside line

/-! ## Words -/

/-- What a search for a whole word comes to. -/
inductive WordSearch where
  /-- The word stands alone somewhere. -/
  | found
  /-- The word stands alone nowhere. -/
  | absent
  /-- The search resumed one byte after an occurrence and fell inside a character. -/
  | splitCharacter
  deriving DecidableEq, Repr

/-- Whether the text after a character may not continue an identifier. -/
def endsWord : List Char → Bool
  | [] => true
  | c :: _ => !isIdentChar c

/-- Searches `rest` for `word` as a whole word; `previous` is the character before. A rejected
occurrence is followed by a search from its second byte on. -/
def searchWord (word : List Char) : (previous : Option Char) → (rest : List Char) → WordSearch
  | previous, [] =>
    if word.isEmpty && previous.all (!isIdentChar ·) then .found else .absent
  | previous, c :: rest =>
    match afterPrefix? word (c :: rest) with
    | none => searchWord word (some c) rest
    | some after =>
      if previous.all (!isIdentChar ·) && endsWord after then .found
      else if c.utf8Size = 1 then
        match rest with
        | [] => .absent
        | _ :: _ => searchWord word (some c) rest
      else .splitCharacter

/-- Searches a text for a whole word. -/
def findWord (text word : List Char) : WordSearch := searchWord word none text

/-- Whether a text contains a whole word. -/
def containsWord (text word : List Char) : Bool := findWord text word == .found

end Line

end GodotLint
