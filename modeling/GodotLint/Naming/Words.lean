import GodotLint.Pattern.Basic
import GodotLint.Text.CaseMap

/-!
# Names and their words

An identifier is cut into words at underscores and where its case changes, and put together again
in one of three styles. An acronym is one word (`HTTPRequest` is `HTTP` and `Request`), and digits
belong to the word before them. Functions that the engine calls and some short names keep their
spelling in every style.

Two names are one edit apart when one becomes the other by inserting, dropping or replacing one
character or by swapping two neighbours.
-/

namespace GodotLint.Naming

open Text Pattern

/-! ## Styles -/

/-- Lowercase letters and digits. -/
def snakeWord : Pattern := .plus (.oneOf [.range 'a' 'z', .range '0' '9'])

/-- Uppercase letters and digits. -/
def screamingWord : Pattern := .plus (.oneOf [.range 'A' 'Z', .range '0' '9'])

/-- `snake_case`, with underscores around it. -/
def snakeShape : Pattern :=
  .atStart ++ .star (.char '_') ++ .oneOf [.range 'a' 'z'] ++
    .star (.oneOf [.range 'a' 'z', .range '0' '9']) ++ .star (.plus (.char '_') ++ snakeWord) ++
    .star (.char '_') ++ .atEnd

/-- `SCREAMING_SNAKE_CASE`, with underscores around it. -/
def screamingShape : Pattern :=
  .atStart ++ .star (.char '_') ++ .oneOf [.range 'A' 'Z'] ++
    .star (.oneOf [.range 'A' 'Z', .range '0' '9']) ++
    .star (.plus (.char '_') ++ screamingWord) ++ .star (.char '_') ++ .atEnd

/-- `PascalCase`, with at most one underscore before it. -/
def pascalShape : Pattern :=
  .atStart ++ .opt (.char '_') ++ .oneOf [.range 'A' 'Z'] ++
    .star (.oneOf [.range 'A' 'Z', .range 'a' 'z', .range '0' '9']) ++ .atEnd

/-- Whether a name is in `snake_case`. -/
def isSnakeCase (name : List Char) : Bool := snakeShape.occursIn name

/-- Whether a name is in `SCREAMING_SNAKE_CASE`. -/
def isScreamingCase (name : List Char) : Bool := screamingShape.occursIn name

/-- Whether a name is in `PascalCase`. -/
def isPascalCase (name : List Char) : Bool := pascalShape.occursIn name

/-! ## Words -/

/-- Whether a word starts at an uppercase character between `previous` and `next`: after a
lowercase letter or a digit, and at the last capital of an acronym. -/
def startsWord (previous : Char) (next : Option Char) : Bool :=
  isLower previous || isAsciiDigit previous || (isUpper previous && next.any isLower)

/-- The word read so far, backwards, as a list of at most one word. -/
def finished (word : List Char) : List (List Char) := if word.isEmpty then [] else [word.reverse]

/-- The words of a name of which `word` was read, backwards. -/
def wordsFrom (word : List Char) : List Char → List (List Char)
  | [] => finished word
  | c :: rest =>
    if c == '_' || !isAlphanumeric c then finished word ++ wordsFrom [] rest
    else if isUpper c && word.head?.any (startsWord · rest.head?) then
      finished word ++ wordsFrom [c] rest
    else wordsFrom (c :: word) rest

/-- The words of a name. -/
def words (name : List Char) : List (List Char) := wordsFrom [] name

/-! ## Conversions -/

/-- The underscores that a name starts with. -/
def leadingUnderscores (name : List Char) : List Char := name.takeWhile (· == '_')

/-- The words of a name in lower case, joined by underscores. A text that is empty or starts with
a digit gets a letter in front. -/
def snakeBody (name : List Char) : List Char :=
  let body := join ['_'] ((words name).map lower)
  let body := if body.isEmpty || body.head?.any isAsciiDigit then "v_".toList ++ body else body
  dropEndWhile (· == '_') body

/-- A name in `snake_case`, with the underscores it starts with. -/
def toSnakeCase (name : List Char) : List Char := leadingUnderscores name ++ snakeBody name

/-- A name in `SCREAMING_SNAKE_CASE`. -/
def toScreamingCase (name : List Char) : List Char := upper (toSnakeCase name)

/-- The tail of a word in lower case, unless it has lowercase letters already. -/
def softened (tail : List Char) : List Char := if tail.any isLower then tail else lower tail

/-- A word with a capital first letter. -/
def capitalized : List Char → List Char
  | [] => []
  | c :: tail => upperChar c ++ softened tail

/-- A name in `PascalCase`. One that would not start with a capital letter gets one in front. -/
def toPascalCase (name : List Char) : List Char :=
  let body := (words name).flatMap capitalized
  if body.head?.any isAsciiUpper then body else 'C' :: body

/-- The class name expected of a script whose file name has the given stem. -/
def classNameOfStem (stem : List Char) : List Char := toPascalCase stem

/-! ## Names one edit apart -/

/-- Whether swapping the first two characters makes the texts equal. -/
def swapsAtStart : List Char → List Char → Bool
  | a :: a' :: as, b :: b' :: bs => a == b' && a' == b && as == bs
  | _, _ => false

/-- Whether two texts are one edit apart. The edit is at the first place where they differ. -/
def oneEditApart : List Char → List Char → Bool
  | [], [] => false
  | [], _ :: bs => bs.isEmpty
  | _ :: as, [] => as.isEmpty
  | a :: as, b :: bs =>
    if a == b then oneEditApart as bs
    else as == bs || as == b :: bs || a :: as == bs || swapsAtStart (a :: as) (b :: bs)

/-! ## Names with a meaning of their own -/

/-- Functions that the engine calls. -/
def lifecycleHooks : List String :=
  ["_ready", "_process", "_physics_process", "_input", "_unhandled_input", "_unhandled_key_input",
    "_gui_input", "_draw", "_enter_tree", "_exit_tree", "_notification", "_init", "_get", "_set",
    "_get_property_list", "_to_string", "_static_init", "_shortcut_input", "_validate_property",
    "_can_drop_data", "_drop_data", "_get_drag_data", "_make_custom_tooltip",
    "_integrate_forces", "_get_configuration_warnings"]

/-- Functions that the engine calls in every frame. -/
def frameHooks : List String :=
  ["_process", "_physics_process", "_input", "_unhandled_input", "_draw"]

/-- Names that are accepted everywhere. -/
def shortNames : List String :=
  ["x", "y", "z", "w", "i", "j", "k", "n", "id", "hp", "mp", "ap", "ui", "io", "db", "ok", "PI",
    "TAU"]

/-- The name of a function that the engine calls in every frame. -/
def frameHook? (function : Option String) : Option String :=
  function.filter frameHooks.contains

end GodotLint.Naming
