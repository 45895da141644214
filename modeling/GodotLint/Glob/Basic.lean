import GodotLint.Pattern.Basic
import GodotLint.Text.Utf8

/-!
# File patterns

Patterns of paths with `?`, `*`, `**`, character classes and alternatives in braces. A pattern is
matched against the bytes of a path, so `?` stands for one byte and a class for the bytes of its
characters.
-/

namespace GodotLint.Glob

open Text

/-- A part of a file pattern. -/
inductive Token where
  | literal (c : Char)
  /-- `?` -/
  | any
  /-- `*` -/
  | zeroOrMore
  /-- `**/` at the start. -/
  | recursivePrefix
  /-- `/**` at the end. -/
  | recursiveSuffix
  /-- `/**/` in between. -/
  | recursiveBetween
  /-- `[…]`, with the first and last character of each range. -/
  | characterClass (negated : Bool) (ranges : List (Char × Char))
  /-- `{…}` -/
  | alternates (branches : List (List Token))

/-- Why a text is no file pattern. -/
inductive Fault where
  | unclosedClass
  | invalidRange (first last : Char)
  | unopenedAlternates
  | unclosedAlternates
  | danglingEscape
  deriving DecidableEq, Repr

/-- The words for a fault. -/
def Fault.message : Fault → String
  | .unclosedClass => "unclosed character class; missing ']'"
  | .invalidRange first last =>
    "invalid range; '" ++ String.singleton first ++ "' > '" ++ String.singleton last ++ "'"
  | .unopenedAlternates =>
    "unopened alternate group; missing '\x7b' (maybe escape '\x7d' with '[\x7d]'?)"
  | .unclosedAlternates =>
    "unclosed alternate group; missing '\x7d' (maybe escape '\x7b' with '[\x7b]'?)"
  | .danglingEscape => "dangling '\\'"

/-- The words for a fault in a pattern. -/
def faultMessage (pattern : String) (fault : Fault) : String :=
  "error parsing glob '" ++ pattern ++ "': " ++ fault.message

/-! ## Reading -/

/-- A class that is being read, its ranges the last one first. -/
structure ClassReading where
  ranges : List (Char × Char) := []
  /-- Nothing was read yet. -/
  first : Bool := true
  /-- A dash was read that may join two characters. -/
  inRange : Bool := false

/-- Takes one character into a class. -/
def ClassReading.feed (r : ClassReading) (c : Char) : Except Fault ClassReading :=
  match r.inRange, r.ranges with
  | true, (first, _) :: rest =>
    if c < first then .error (.invalidRange first c)
    else .ok { ranges := (first, c) :: rest, first := false }
  | _, _ =>
    if c == '-' && !r.first then .ok { r with inRange := true }
    else .ok { ranges := (c, c) :: r.ranges, first := false }

/-- Reads a class up to its closing bracket; gives the ranges and what follows. -/
def readClass (r : ClassReading) : List Char → Except Fault (List (Char × Char) × List Char)
  | [] => .error .unclosedClass
  | c :: rest =>
    if c == ']' && !r.first then
      let ranges := if r.inRange then ('-', '-') :: r.ranges else r.ranges
      .ok (ranges.reverse, rest)
    else
      match r.feed c with
      | .ok r => readClass r rest
      | .error fault => .error fault

/-- A group of alternatives that is open. -/
structure OpenGroup where
  /-- The tokens before the group, the last one first. -/
  outer : List Token
  /-- The alternatives that are complete, the last one first. -/
  branches : List (List Token)

/-- What has been read so far. -/
structure Reading where
  /-- The tokens of the present branch, the last one first. -/
  tokens : List Token := []
  /-- The groups that are open, the innermost first. -/
  groups : List OpenGroup := []

/-- Adds a token. -/
def Reading.push (r : Reading) (t : Token) : Reading := { r with tokens := t :: r.tokens }

/-- Closes the innermost group. -/
def Reading.close (r : Reading) : Except Fault Reading :=
  match r.groups with
  | [] => .error .unopenedAlternates
  | g :: groups =>
    .ok { tokens := .alternates (g.branches.reverse ++ [r.tokens.reverse]) :: g.outer, groups }

/-- Starts the next alternative of the innermost group. -/
def Reading.nextBranch (r : Reading) : Reading :=
  match r.groups with
  | [] => r.push (.literal ',')
  | g :: groups =>
    { tokens := [], groups := { g with branches := r.tokens.reverse :: g.branches } :: groups }

/-- Reads the rest of `**` after the character `previous`; gives what follows. Only between
separators or the ends of a branch does it stand for any number of directories. -/
def Reading.doubleStar (r : Reading) (previous : Option Char) (rest : List Char) :
    Reading × Option Char × List Char :=
  let two := (r.push .zeroOrMore).push .zeroOrMore
  if r.tokens.isEmpty then
    match rest with
    | [] => (r.push .recursivePrefix, none, [])
    | c :: tail =>
      if c == '/' then (r.push .recursivePrefix, some '/', tail) else (two, some '*', rest)
  else if previous != some '/' &&
      (r.groups.isEmpty || (previous != some ',' && previous != some '\x7b')) then
    (two, some '*', rest)
  else
    let replaceLast (last : Token) : Reading :=
      match r.tokens with
      | .recursivePrefix :: _ => r
      | .recursiveSuffix :: _ => r
      | _ :: tokens => { r with tokens := last :: tokens }
      | [] => r
    match rest with
    | [] => (replaceLast .recursiveSuffix, none, [])
    | c :: tail =>
      if (c == ',' || c == '\x7d') && !r.groups.isEmpty then
        (replaceLast .recursiveSuffix, some '*', rest)
      else if c == '/' then (replaceLast .recursiveBetween, some '/', tail)
      else (two, some '*', rest)

/-- Reads a text, `previous` being the character before it; `count` bounds its length. -/
def readFrom : (count : Nat) → Reading → (previous : Option Char) → List Char →
    Except Fault Reading
  | 0, r, _, _ => .ok r
  | _ + 1, r, _, [] => .ok r
  | count + 1, r, previous, c :: rest =>
    if c == '?' then readFrom count (r.push .any) (some c) rest
    else if c == '*' then
      match rest with
      | '*' :: rest =>
        let (r, previous, rest) := r.doubleStar previous rest
        readFrom count r previous rest
      | _ => readFrom count (r.push .zeroOrMore) (some c) rest
    else if c == '[' then
      let (negated, rest) := match rest with
        | '!' :: rest => (true, rest)
        | '^' :: rest => (true, rest)
        | _ => (false, rest)
      match readClass {} rest with
      | .error fault => .error fault
      | .ok (ranges, rest) =>
        readFrom count (r.push (.characterClass negated ranges)) (some ']') rest
    else if c == '\x7b' then
      readFrom count { tokens := [], groups := ⟨r.tokens, []⟩ :: r.groups } (some c) rest
    else if c == '\x7d' then
      match r.close with
      | .error fault => .error fault
      | .ok r => readFrom count r (some c) rest
    else if c == ',' then readFrom count r.nextBranch (some c) rest
    else if c == '\\' then
      match rest with
      | [] => .error .danglingEscape
      | d :: rest => readFrom count (r.push (.literal d)) (some d) rest
    else readFrom count (r.push (.literal c)) (some c) rest

/-- Reads a file pattern. -/
def parse (pattern : List Char) : Except Fault (List Token) :=
  match readFrom pattern.length {} none pattern with
  | .error fault => .error fault
  | .ok r => if r.groups.isEmpty then .ok r.tokens.reverse else .error .unclosedAlternates

/-! ## Matching -/

/-- The bytes of a text as characters. -/
def byteChars (s : List Char) : List Char := (encode s).map fun b => Char.ofNat b.toNat

/-- Any byte. -/
def anyByte : Pattern := .noneOf []

/-- The entries of a byte class: the range goes from the last byte of its first character to the
first byte of its last one. -/
def rangeItems (range : Char × Char) : List ClassItem :=
  let (first, last) := range
  let firstBytes := byteChars [first]
  let lastBytes := byteChars [last]
  if first == last then firstBytes.map .only
  else
    match firstBytes.getLast?, lastBytes.head? with
    | some a, some b =>
      firstBytes.dropLast.map .only ++ [.range a b] ++ (lastBytes.drop 1).map .only
    | _, _ => []

/-- One after the other, nothing being added where one of them is empty. -/
def glue : Pattern → Pattern → Pattern
  | .empty, q => q
  | p, .empty => p
  | p, q => p ++ q

mutual

/-- The pattern of bytes for a token. -/
def tokenPattern : Token → Pattern
  | .literal c => .chars (byteChars [c])
  | .any => anyByte
  | .zeroOrMore => .star anyByte
  | .recursivePrefix => .opt (.char '/') <|> .star anyByte ++ .char '/'
  | .recursiveSuffix => .char '/' ++ .star anyByte
  | .recursiveBetween => .char '/' <|> .char '/' ++ .star anyByte ++ .char '/'
  | .characterClass negated ranges =>
    let items := ranges.flatMap rangeItems
    if negated then .noneOf items else .oneOf items
  | .alternates branches => .choice ((branchPatterns branches).filter (· != .empty))

/-- The patterns for the alternatives of a group. -/
def branchPatterns : List (List Token) → List Pattern
  | [] => []
  | branch :: rest => sequencePattern branch :: branchPatterns rest

/-- The pattern for tokens one after the other. -/
def sequencePattern : List Token → Pattern
  | [] => .empty
  | t :: rest => glue (tokenPattern t) (sequencePattern rest)

end

/-- The pattern for a whole path. -/
def pathPattern : List Token → Pattern
  | [.recursivePrefix] => .atStart ++ .star anyByte ++ .atEnd
  | tokens => .atStart ++ sequencePattern tokens ++ .atEnd

/-- Whether a path matches a file pattern; one that cannot be read matches nothing. -/
def isMatch (pattern path : String) : Bool :=
  match parse pattern.toList with
  | .ok tokens => (pathPattern tokens).occursIn (byteChars path.toList)
  | .error _ => false

end GodotLint.Glob
