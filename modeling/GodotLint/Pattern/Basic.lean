import GodotLint.Text.Basic

/-!
# Patterns

Regular expressions over one text, with capture groups. A pattern is matched by trying its
choices in order: the first alternative before the second, one repetition more before one less
(the other way round for a lazy one). The first way that lets everything after it succeed is the
match, and `find` gives the match that starts earliest.

`run` is written in continuation style: it hands each way of matching, in order, to what comes
after, and stops at the first that succeeds. A repetition goes on only while it consumes, so
every pattern ends on every text.

A letter written without regard to case stands for both its cases, and `k` and `s` also for the
Kelvin sign and the long s, which fold to them.
-/

namespace GodotLint

open Text

/-- One entry of a character class. -/
inductive ClassItem where
  /-- One character. -/
  | only (c : Char)
  /-- The characters from `first` to `last`. -/
  | range (first last : Char)
  /-- White space. -/
  | blank
  /-- Decimal digits. -/
  | digit
  /-- Characters of a word. -/
  | word
  deriving DecidableEq, Repr

/-- Whether a character belongs to an entry. -/
def ClassItem.holds : ClassItem → Char → Bool
  | .only d, c => c == d
  | .range first last, c => first ≤ c && c ≤ last
  | .blank, c => isBlank c
  | .digit, c => isDigit c
  | .word, c => isWordChar c

/-- A regular expression. -/
inductive Pattern where
  /-- Matches where it stands and consumes nothing. -/
  | empty
  /-- One given character. -/
  | char (c : Char)
  /-- Any character but a line feed. -/
  | any
  /-- A character of the class. -/
  | oneOf (items : List ClassItem)
  /-- A character outside the class. -/
  | noneOf (items : List ClassItem)
  /-- The start of the text. -/
  | atStart
  /-- The end of the text. -/
  | atEnd
  /-- A place with a word character on exactly one side. -/
  | wordEdge
  /-- One after the other. -/
  | seq (first second : Pattern)
  /-- One or the other, the first preferred. -/
  | alt (first second : Pattern)
  /-- Once if possible. -/
  | opt (body : Pattern)
  /-- As often as possible. -/
  | star (body : Pattern)
  /-- As often as possible, and at least once. -/
  | plus (body : Pattern)
  /-- As rarely as possible, but at least once. -/
  | lazyPlus (body : Pattern)
  /-- Remembers what `body` matched. -/
  | group (index : Nat) (body : Pattern)
  deriving DecidableEq, Repr

/-- A piece of a text and the byte offset at which it starts. -/
structure Span where
  start : Nat
  chars : List Char
  deriving DecidableEq, Repr

namespace Span

/-- The byte offset just past the piece. -/
def stop (s : Span) : Nat := s.start + width s.chars

/-- The piece as a string. -/
def text (s : Span) : String := String.ofList s.chars

end Span

/-- A place in a text. -/
structure Cursor where
  /-- The character just before the place. -/
  previous : Option Char := none
  /-- Bytes before the place. -/
  offset : Nat := 0
  /-- The text after the place. -/
  rest : List Char
  deriving DecidableEq, Repr

namespace Cursor

/-- The start of a text. -/
def ofText (s : List Char) : Cursor := { rest := s }

/-- The place after the next character. -/
def next? (c : Cursor) : Option (Char × Cursor) :=
  match c.rest with
  | [] => none
  | x :: rest => some (x, ⟨some x, c.offset + x.utf8Size, rest⟩)

/-- Whether a word starts or ends at the place. -/
def isWordEdge (c : Cursor) : Bool :=
  (c.previous.elim false isWordChar) != (c.rest.head?.elim false isWordChar)

end Cursor

namespace Pattern

/-- A place in the text and the groups remembered on the way to it, the latest first. -/
structure Progress where
  cursor : Cursor
  groups : List (Nat × Span) := []

/-- What is to succeed after a part of the pattern. -/
abbrev Continuation := Progress → Option Progress

/-- Consumes one character that satisfies `p`. -/
def consume (p : Char → Bool) (s : Progress) (k : Continuation) : Option Progress :=
  match s.cursor.next? with
  | some (x, cursor) => if p x then k { s with cursor } else none
  | none => none

/-- Goes on where it stands if `holds`. -/
def check (holds : Bool) (s : Progress) (k : Continuation) : Option Progress :=
  if holds then k s else none

/-- Repeats `step` as often as possible, at most `count` times, each time consuming. -/
def repeatGreedy (step : Progress → Continuation → Option Progress) (k : Continuation) :
    (count : Nat) → Progress → Option Progress
  | 0, s => k s
  | count + 1, s =>
    match step s fun t =>
      if s.cursor.offset < t.cursor.offset then repeatGreedy step k count t else none with
    | some r => some r
    | none => k s

/-- Repeats `step` as rarely as possible, at most `count` times, each time consuming. -/
def repeatLazy (step : Progress → Continuation → Option Progress) (k : Continuation) :
    (count : Nat) → Progress → Option Progress
  | 0, s => k s
  | count + 1, s =>
    match k s with
    | some r => some r
    | none =>
      step s fun t =>
        if s.cursor.offset < t.cursor.offset then repeatLazy step k count t else none

/-- Remembers the text from `s` to `t` as group `index`. -/
def remember (index : Nat) (s t : Progress) : Progress :=
  let consumed := s.cursor.rest.take (s.cursor.rest.length - t.cursor.rest.length)
  { t with groups := (index, ⟨s.cursor.offset, consumed⟩) :: t.groups }

/-- Matches a pattern from a place and hands every way of doing so, in order, to `k`, until one
succeeds. -/
def run : Pattern → Progress → Continuation → Option Progress
  | .empty, s, k => k s
  | .char c, s, k => consume (· == c) s k
  | .any, s, k => consume (· != '\n') s k
  | .oneOf items, s, k => consume (fun x => items.any (·.holds x)) s k
  | .noneOf items, s, k => consume (fun x => !items.any (·.holds x)) s k
  | .atStart, s, k => check (s.cursor.offset == 0) s k
  | .atEnd, s, k => check s.cursor.rest.isEmpty s k
  | .wordEdge, s, k => check s.cursor.isWordEdge s k
  | .seq p q, s, k => p.run s fun t => q.run t k
  | .alt p q, s, k =>
    match p.run s k with
    | some r => some r
    | none => q.run s k
  | .opt p, s, k =>
    match p.run s k with
    | some r => some r
    | none => k s
  | .star p, s, k => repeatGreedy p.run k s.cursor.rest.length s
  | .plus p, s, k => p.run s fun t => repeatGreedy p.run k t.cursor.rest.length t
  | .lazyPlus p, s, k => p.run s fun t => repeatLazy p.run k t.cursor.rest.length t
  | .group index p, s, k => p.run s fun t => k (remember index s t)

/-- A match of a pattern in a text. -/
structure Match where
  /-- The piece that was matched. -/
  whole : Span
  /-- What the groups hold, the latest first. -/
  groups : List (Nat × Span)
  /-- The place just past the match. -/
  after : Cursor

namespace Match

/-- The byte offset at which the match starts. -/
def start (m : Match) : Nat := m.whole.start

/-- The byte offset just past the match. -/
def stop (m : Match) : Nat := m.after.offset

/-- What a group holds, if it took part in the match. -/
def group? (m : Match) (index : Nat) : Option Span := m.groups.lookup index

/-- The text that a group holds, empty if it took no part. -/
def group (m : Match) (index : Nat) : List Char := ((m.group? index).map (·.chars)).getD []

end Match

/-- The match that starts at a place. -/
def matchAt? (p : Pattern) (c : Cursor) : Option Match :=
  (p.run { cursor := c } some).map fun t =>
    ⟨⟨c.offset, c.rest.take (c.rest.length - t.cursor.rest.length)⟩, t.groups, t.cursor⟩

/-- The match that starts earliest, at or after the place that `previous` and `offset` describe
before the text `rest`. -/
def findFrom? (p : Pattern) (previous : Option Char) (offset : Nat) :
    (rest : List Char) → Option Match
  | [] => p.matchAt? ⟨previous, offset, []⟩
  | x :: rest =>
    match p.matchAt? ⟨previous, offset, x :: rest⟩ with
    | some m => some m
    | none => p.findFrom? (some x) (offset + x.utf8Size) rest

/-- The first match in a text. -/
def find? (p : Pattern) (s : List Char) : Option Match := p.findFrom? none 0 s

/-- Whether a pattern matches somewhere in a text. -/
def occursIn (p : Pattern) (s : List Char) : Bool := (p.find? s).isSome

/-- The matches from a place on, at most `count`. An empty match right after the previous match,
at offset `last`, does not count. -/
def findAllFrom (p : Pattern) : (count : Nat) → (last : Option Nat) → Cursor → List Match
  | 0, _, _ => []
  | count + 1, last, c =>
    match p.findFrom? c.previous c.offset c.rest with
    | none => []
    | some m =>
      if m.start < m.stop then m :: p.findAllFrom count (some m.stop) m.after
      else
        let later := match m.after.next? with
          | none => []
          | some (_, next) => p.findAllFrom count (some m.stop) next
        if last == some m.stop then later else m :: later

/-- All matches in a text, none overlapping another. -/
def findAll (p : Pattern) (s : List Char) : List Match :=
  p.findAllFrom (s.length + 1) none (.ofText s)

/-! ## Building patterns -/

instance : Append Pattern := ⟨.seq⟩

instance : OrElse Pattern := ⟨fun p q => .alt p (q ())⟩

/-- The characters one after the other. -/
def chars : List Char → Pattern
  | [] => .empty
  | [c] => .char c
  | c :: rest => .seq (.char c) (chars rest)

/-- The given text. -/
def lit (s : String) : Pattern := chars s.toList

/-- One of the patterns, an earlier one preferred. -/
def choice : List Pattern → Pattern
  | [] => .empty
  | [p] => p
  | p :: rest => .alt p (choice rest)

/-- One of the given texts, an earlier one preferred. -/
def word (texts : List String) : Pattern := choice (texts.map lit)

/-- One of the characters of a text. -/
def charOf (s : String) : Pattern := .oneOf (s.toList.map .only)

/-- A character that is not in a text. -/
def charNotOf (s : String) : Pattern := .noneOf (s.toList.map .only)

/-- Any number of blanks. -/
def blanks : Pattern := .star (.oneOf [.blank])

/-- At least one blank. -/
def blanks1 : Pattern := .plus (.oneOf [.blank])

/-- ASCII letters and the underscore. -/
def identStart : Pattern := .oneOf [.range 'A' 'Z', .range 'a' 'z', .only '_']

/-- ASCII letters, digits and the underscore. -/
def identPart : Pattern := .oneOf [.range 'A' 'Z', .range 'a' 'z', .range '0' '9', .only '_']

/-- An identifier. -/
def ident : Pattern := identStart ++ .star identPart

/-- A single or double quotation mark. -/
def quoteMark : Pattern := charOf "\"'"

/-- Characters other than quotation marks, at least one. -/
def unquoted : Pattern := .plus (charNotOf "\"'")

/-! ## Replacing matches -/

/-- Replaces the given matches in the rest of a text that starts at byte `offset`. -/
def replaceMatches (f : Match → List Char) (offset : Nat) (rest : List Char) :
    List Match → List Char
  | [] => rest
  | m :: later =>
    takeBytes (m.start - offset) rest ++ f m ++
      replaceMatches f m.stop (dropBytes (m.stop - offset) rest) later

/-- The text with every match replaced by what `f` makes of it. -/
def replaceAll (p : Pattern) (f : Match → List Char) (s : List Char) : List Char :=
  replaceMatches f 0 s (p.findAll s)

/-! ## Patterns that ignore case -/

/-- An ASCII character in either case. -/
def foldedChar (c : Char) : Pattern :=
  if !Text.isAsciiLetter c then .char c
  else
    let lowered := if Text.isAsciiUpper c then Char.ofNat (c.toNat + 32) else c
    let raised := Char.ofNat (lowered.toNat - 32)
    let more : List ClassItem :=
      if lowered == 'k' then [.only '\u212a'] else if lowered == 's' then [.only '\u017f'] else []
    .oneOf ([.only lowered, .only raised] ++ more)

/-- The characters one after the other, in either case. -/
def foldedChars : List Char → Pattern
  | [] => .empty
  | [c] => foldedChar c
  | c :: rest => .seq (foldedChar c) (foldedChars rest)

/-- The given ASCII text in either case. -/
def folded (s : String) : Pattern := foldedChars s.toList

/-- One of the given ASCII texts in either case, an earlier one preferred. -/
def foldedWord (texts : List String) : Pattern := choice (texts.map folded)

end Pattern

end GodotLint
