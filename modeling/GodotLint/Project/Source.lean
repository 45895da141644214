import GodotLint.Project.Path
import GodotLint.Text.Utf8

/-!
# Scripts

A script is its path, its text without a byte-order mark, and the lines of that text. The first
directory of its path puts it into an architectural layer.
-/

namespace GodotLint

open Text

/-- An architectural tier. -/
inductive Layer where
  | sim
  | game
  | ui
  | scripts
  | tests
  | tools
  | other
  deriving DecidableEq, Repr

namespace Layer

/-- The name of the layer, which is that of its directory. -/
def name : Layer → String
  | .sim => "sim"
  | .game => "game"
  | .ui => "ui"
  | .scripts => "scripts"
  | .tests => "tests"
  | .tools => "tools"
  | .other => "other"

/-- Every layer. -/
def all : List Layer := [.sim, .game, .ui, .scripts, .tests, .tools, .other]

/-- The layer of a name. -/
def ofName? (name : String) : Option Layer := all.find? (·.name == name)

/-- The layer of a file. -/
def ofPath (path : String) : Layer :=
  (ofName? (str (before (· == '/') path.toList))).getD .other

/-- The place of the layer in the order of dependencies. A layer must not depend on a higher one;
`other` is outside the order. -/
def rank? : Layer → Option Nat
  | .sim => some 0
  | .game => some 1
  | .ui => some 2
  | .scripts => some 2
  | .tests => some 3
  | .tools => some 3
  | .other => none

end Layer

/-- One script. -/
structure Source where
  /-- The path from the project root. -/
  path : String
  text : List Char
  /-- Bytes of the script as it was read. -/
  size : Nat
  deriving DecidableEq, Repr

namespace Source

/-- A script of the given text. -/
def ofText (path : String) (text : List Char) : Source :=
  let text := dropMark text
  { path, text, size := width text }

/-- A script read from bytes. -/
def ofBytes (path : String) (bytes : List UInt8) : Source :=
  { ofText path (decode bytes) with size := bytes.length }

/-- The lines of the script. -/
def lines (s : Source) : List (List Char) := Text.lines s.text

/-- The layer of the script. -/
def layer (s : Source) : Layer := Layer.ofPath s.path

/-- A line by its number from one; lines that are not there are empty. -/
def line (s : Source) (number : Nat) : List Char :=
  if number = 0 then [] else s.lines.getD (number - 1) []

/-- The path by which the engine knows the script. -/
def resourcePath (s : Source) : String := "res://" ++ s.path

/-- The name of the file without its extension. -/
def stem (s : Source) : List Char :=
  let name := Path.fileName s.path.toList
  if endsWith ".gd".toList name then name.take (name.length - 3) else name

/-- Whether the script belongs to the tests. -/
def isTest (s : Source) : Bool :=
  s.layer == .tests ||
    (Path.segments s.path.toList).any (fun seg => seg == "tests".toList || seg == "test".toList) ||
    startsWith "test_".toList s.stem

end Source

end GodotLint
