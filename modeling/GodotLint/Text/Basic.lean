import GodotLint.Text.CharClass

/-!
# Text as lists of characters

The scanners of this library read text as a list of characters. Places in a text are byte
offsets in UTF-8, so every function that counts does so through `width`. The module holds the
list functions they share: trimming blanks, cutting at a separator, cutting into lines and
looking for a substring. Messages quote a text between double quotation marks, with escapes for the
mark, the backslash and every character that would not be seen as itself.
-/

namespace GodotLint.Text

/-- Bytes that a text takes in UTF-8. -/
def width : List Char → Nat
  | [] => 0
  | c :: rest => c.utf8Size + width rest

/-- The longest beginning of a text that fits in `n` bytes. -/
def takeBytes : Nat → List Char → List Char
  | _, [] => []
  | n, c :: rest => if c.utf8Size ≤ n then c :: takeBytes (n - c.utf8Size) rest else []

/-- What follows the longest beginning of a text that fits in `n` bytes. -/
def dropBytes : Nat → List Char → List Char
  | _, [] => []
  | n, c :: rest => if c.utf8Size ≤ n then dropBytes (n - c.utf8Size) rest else c :: rest

/-! ## Trimming -/

/-- Drops elements that satisfy `p` from the end. -/
def dropEndWhile (p : α → Bool) (s : List α) : List α :=
  (s.reverse.dropWhile p).reverse

/-- Drops the blanks at the start. -/
def trimStart (s : List Char) : List Char := s.dropWhile isBlank

/-- Drops the blanks at the end. -/
def trimEnd (s : List Char) : List Char := dropEndWhile isBlank s

/-- Drops the blanks at both ends. -/
def trim (s : List Char) : List Char := trimEnd (trimStart s)

/-- Drops characters that satisfy `p` from both ends. -/
def trimWhile (p : Char → Bool) (s : List Char) : List Char :=
  dropEndWhile p (s.dropWhile p)

/-- Text of blanks only. -/
def isAllBlank (s : List Char) : Bool := s.all isBlank

/-! ## Substrings -/

/-- Whether `s` begins with `p`. -/
def startsWith (p s : List Char) : Bool := p.isPrefixOf s

/-- Whether `s` ends with `p`. -/
def endsWith (p s : List Char) : Bool := p.reverse.isPrefixOf s.reverse

/-- What follows `p` when `s` begins with it. -/
def afterPrefix? : List Char → List Char → Option (List Char)
  | [], s => some s
  | _ :: _, [] => none
  | a :: p, c :: s => if a == c then afterPrefix? p s else none

/-- Whether `p` occurs somewhere in `s`. -/
def contains (p : List Char) : List Char → Bool
  | [] => p.isEmpty
  | c :: s => startsWith p (c :: s) || contains p s

/-- The text before the first occurrence of `p` and the text after it. -/
def cutAt? (p : List Char) : List Char → Option (List Char × List Char)
  | [] => if p.isEmpty then some ([], []) else none
  | c :: s =>
    match afterPrefix? p (c :: s) with
    | some rest => some ([], rest)
    | none => (cutAt? p s).map fun (before, after) => (c :: before, after)

/-! ## Cutting -/

/-- The pieces between the characters that satisfy `p`: one piece more than there are such
characters. -/
def splitWhere (p : Char → Bool) : List Char → List (List Char)
  | [] => [[]]
  | c :: s =>
    if p c then [] :: splitWhere p s
    else
      match splitWhere p s with
      | [] => [[c]]
      | piece :: pieces => (c :: piece) :: pieces

/-- The pieces between the occurrences of one character. -/
def splitAt (sep : Char) : List Char → List (List Char) := splitWhere (· == sep)

/-- The text before the first character that satisfies `p`. -/
def before (p : Char → Bool) (s : List Char) : List Char := s.takeWhile (!p ·)

/-- The text after the last occurrence of `sep`, or all of it. -/
def afterLast (sep : Char) (s : List Char) : List Char :=
  (s.reverse.takeWhile (· != sep)).reverse

/-- The pieces put together with `sep` between them. -/
def join (sep : List Char) : List (List Char) → List Char
  | [] => []
  | [piece] => piece
  | piece :: pieces => piece ++ sep ++ join sep pieces

/-- Drops one carriage return at the end. -/
def dropCarriageReturn (line : List Char) : List Char :=
  match line.reverse with
  | '\r' :: rest => rest.reverse
  | _ => line

/-- The lines of a text. A line ends at a line feed or at the end of the text; a carriage
return before the line feed belongs to the line end, and a final line end starts no line. -/
def lines (s : List Char) : List (List Char) :=
  (splitAt '\n' s).dropLast.map dropCarriageReturn ++
    match (splitAt '\n' s).getLast? with
    | none | some [] => []
    | some last => [last]

/-- Replaces every occurrence of one character by a text. -/
def replaceChar (c : Char) (by_ : List Char) (s : List Char) : List Char :=
  s.flatMap fun x => if x == c then by_ else [x]

/-- Whether a text has a line feed at its end. -/
def endsWithLineFeed (s : List Char) : Bool := s.getLast? == some '\n'

end GodotLint.Text

namespace GodotLint

open Text

/-- A text from a list of characters. -/
abbrev str (s : List Char) : String := String.ofList s

/-- The texts put together with `sep` between them. -/
def joinWith (sep : String) : List String → String
  | [] => ""
  | [s] => s
  | s :: rest => s ++ sep ++ joinWith sep rest

end GodotLint

namespace GodotLint.Text

/-! ## Quoted text -/

/-- A code point written as an escape. -/
def codePointEscape (c : Char) : List Char :=
  "\\u\x7b".toList ++ Nat.toDigits 16 c.toNat ++ ['\x7d']

/-- A character as it stands in quoted text. -/
def quotedChar (c : Char) : List Char :=
  if c == '"' then ['\\', '"']
  else if c == '\\' then ['\\', '\\']
  else if c == '\n' then ['\\', 'n']
  else if c == '\r' then ['\\', 'r']
  else if c == '\t' then ['\\', 't']
  else if c == '\x00' then ['\\', '0']
  else if isExtender c || !isPrintable c then codePointEscape c
  else [c]

/-- A text in quotation marks. -/
def quoted (s : List Char) : List Char := '"' :: s.flatMap quotedChar ++ ['"']

/-- A string in quotation marks. -/
def quotedString (s : String) : String := String.ofList (quoted s.toList)

end GodotLint.Text
