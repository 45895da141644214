import GodotLint.Json.Basic

/-!
# Writing JSON

A document on one line, or indented by two spaces for each level.
-/

namespace GodotLint.Json

/-- The hexadecimal digits of a number below 256, two of them. -/
def twoHexDigits (n : Nat) : List Char :=
  [Nat.digitChar (n / 16 % 16), Nat.digitChar (n % 16)]

/-- A character inside a string: quotation mark, backslash and controls are escaped. -/
def escapeChar (c : Char) : List Char :=
  if c == '"' then ['\\', '"']
  else if c == '\\' then ['\\', '\\']
  else if c == '\x08' then ['\\', 'b']
  else if c == '\x0c' then ['\\', 'f']
  else if c == '\n' then ['\\', 'n']
  else if c == '\r' then ['\\', 'r']
  else if c == '\t' then ['\\', 't']
  else if c.toNat < 0x20 then "\\u00".toList ++ twoHexDigits c.toNat
  else [c]

/-- A string between quotation marks. -/
def quote (s : String) : List Char := '"' :: s.toList.flatMap escapeChar ++ ['"']

/-- Pieces put between brackets, with a separator. -/
def enclose (left right : Char) (sep : List Char) (pieces : List (List Char)) : List Char :=
  left :: Text.join sep pieces ++ [right]

mutual

/-- A document on one line. -/
def writeChars : Json → List Char
  | .null => "null".toList
  | .bool true => "true".toList
  | .bool false => "false".toList
  | .num n => n.write
  | .str s => quote s
  | .arr items => enclose '[' ']' [','] (writeItems items)
  | .obj members => enclose '\x7b' '\x7d' [','] (writeMembers members)

/-- The items of an array, each on its own. -/
def writeItems : List Json → List (List Char)
  | [] => []
  | v :: rest => writeChars v :: writeItems rest

/-- The members of an object, each on its own. -/
def writeMembers : List (String × Json) → List (List Char)
  | [] => []
  | (key, v) :: rest => (quote key ++ ':' :: writeChars v) :: writeMembers rest

end

/-- A line end and the indentation of a level. -/
def newLine (level : Nat) : List Char := '\n' :: List.replicate (2 * level) ' '

/-- Pieces put between brackets on lines of their own, one level deeper. -/
def encloseLines (left right : Char) (level : Nat) (pieces : List (List Char)) : List Char :=
  if pieces.isEmpty then [left, right]
  else
    left :: newLine (level + 1) ++ Text.join (',' :: newLine (level + 1)) pieces ++
      newLine level ++ [right]

mutual

/-- A document on several lines that starts at an indentation level. -/
def prettyChars (level : Nat) : Json → List Char
  | .null => "null".toList
  | .bool true => "true".toList
  | .bool false => "false".toList
  | .num n => n.write
  | .str s => quote s
  | .arr items => encloseLines '[' ']' level (prettyItems level items)
  | .obj members => encloseLines '\x7b' '\x7d' level (prettyMembers level members)

/-- The items of an array, one level deeper. -/
def prettyItems (level : Nat) : List Json → List (List Char)
  | [] => []
  | v :: rest => prettyChars (level + 1) v :: prettyItems level rest

/-- The members of an object, one level deeper. -/
def prettyMembers (level : Nat) : List (String × Json) → List (List Char)
  | [] => []
  | (key, v) :: rest =>
    (quote key ++ ':' :: ' ' :: prettyChars (level + 1) v) :: prettyMembers level rest

end

/-- The text of a document on one line. -/
def write (v : Json) : String := String.ofList v.writeChars

/-- The text of a document, indented. -/
def pretty (v : Json) : String := String.ofList (v.prettyChars 0)

end GodotLint.Json
