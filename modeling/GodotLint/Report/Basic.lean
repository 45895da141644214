import GodotLint.Json.Write
import GodotLint.Run.Suite
import GodotLint.Text.CaseMap

/-!
# Reports

The forms in which a run or a suite is reported, and what they share.
-/

namespace GodotLint

/-- The form of a report. -/
inductive Format where
  | text
  | json
  | markdown
  | sarif
  deriving DecidableEq, Repr

/-- The form of a name in any case. -/
def Format.ofName? (name : String) : Option Format :=
  match str (Text.lower name.toList) with
  | "text" => some .text
  | "pretty" => some .text
  | "json" => some .json
  | "markdown" => some .markdown
  | "md" => some .markdown
  | "sarif" => some .sarif
  | _ => none

/-- The severity of a name in any case. -/
def Severity.ofName? (name : String) : Option Severity :=
  Severity.all.find? fun s => s.name == str (Text.lower name.toList)

namespace Report

/-- The name of the program. -/
def toolName : String := "gdscan"

/-- The version of the program. -/
def toolVersion : String := "0.1.0"

/-- A line. -/
def line (s : String) : String := s ++ "\n"

/-- The entries of a summary that are neither lists nor maps. -/
def scalars (summary : Summary) : List (String × Json) :=
  summary.entries.filter (·.2.isScalar)

/-- A scalar in words, strings as `text` writes them. -/
def scalarText (text : String → String) : Json → String
  | .num n => str (Decimal.compact n.toFloat)
  | .str s => text s
  | other => other.write

/-- Blanks after a text up to a number of characters. -/
def padRight (width : Nat) (s : String) : String :=
  s ++ str (List.replicate (width - s.length) ' ')

/-- Blanks before a text up to a number of characters. -/
def padLeft (width : Nat) (s : String) : String :=
  str (List.replicate (width - s.length) ' ') ++ s

end Report

end GodotLint
