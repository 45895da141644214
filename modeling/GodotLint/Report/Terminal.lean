import GodotLint.Report.Basic

/-!
# Reports for a terminal

Columns of fixed width, with colours where they are wanted. A coloured text is padded inside its
colours.
-/

namespace GodotLint.Report

/-! ## Colours -/

/-- A colour. -/
inductive Colour where
  | red
  | green
  | yellow
  | blue
  | cyan
  deriving DecidableEq, Repr

/-- The code of a colour. -/
def Colour.code : Colour → String
  | .red => "31"
  | .green => "32"
  | .yellow => "33"
  | .blue => "34"
  | .cyan => "36"

/-- The look of a text. -/
structure Look where
  bold : Bool := false
  dim : Bool := false
  colour : Option Colour := none
  deriving DecidableEq, Repr

/-- The codes of a look. -/
def Look.codes (l : Look) : List String :=
  (if l.bold then ["1"] else []) ++ (if l.dim then ["2"] else []) ++
    (l.colour.map Colour.code).toList

/-- What starts a look. -/
def Look.opening (l : Look) : List Char := "\x1b[".toList ++ (joinWith ";" l.codes).toList ++ ['m']

/-- What ends every look. -/
def closing : List Char := "\x1b[0m".toList

/-- A text in which the look starts again wherever something ended it; `count` bounds the length. -/
def restart (opening : List Char) : (count : Nat) → List Char → List Char
  | 0, s => s
  | count + 1, s =>
    match Text.cutAt? closing s with
    | some (before, after) => before ++ closing ++ opening ++ restart opening count after
    | none => s

/-- A text on a terminal with or without colours, padded to a width. -/
def paint (colours : Bool) (l : Look) (width : Nat) (s : String) : String :=
  if !colours then padRight width s
  else
    let opening := l.opening
    let inner := str (restart opening s.length s.toList)
    str opening ++ padRight width inner ++ str closing

/-- Bold. -/
def bold : Look := { bold := true }
/-- Dim. -/
def dim : Look := { dim := true }
/-- In a colour. -/
def coloured (c : Colour) : Look := { colour := some c }

/-! ## Parts -/

/-- The width of the column of places. -/
def placeWidth : Nat := 36

/-- The width of the column of kinds. -/
def kindWidth : Nat := 26

/-- A status. -/
def statusTag (colours : Bool) (width : Nat) : Status → String
  | .pass => paint colours (coloured .green) width "PASS"
  | .warn => paint colours (coloured .yellow) width "WARN"
  | .fail => paint colours { bold := true, colour := some .red } width "FAIL"

/-- A severity. -/
def severityTag (colours : Bool) : Severity → String
  | .error => paint colours (coloured .red) 0 "ERROR"
  | .warning => paint colours (coloured .yellow) 0 "WARN "
  | .info => paint colours (coloured .blue) 0 "INFO "

/-- The place of an issue. -/
def placeText (i : Issue) : String :=
  if i.file.isEmpty then "-"
  else if i.line = 0 then i.file
  else i.file ++ ":" ++ toString i.line

/-- An issue, with its suggestion on a line below. -/
def issueLines (colours : Bool) (i : Issue) : String :=
  line ("    " ++ severityTag colours i.severity ++ " " ++
      padRight placeWidth (placeText i) ++ " " ++
    paint colours dim kindWidth i.kind ++ " " ++ i.message) ++
  match i.suggestion with
  | some s => line ("          " ++ paint colours dim 0 "->" ++ " " ++ paint colours dim 0 s)
  | none => ""

/-- The issues of one severity under a heading. -/
def severityGroup (colours : Bool) (issues : List Issue) (s : Severity) : String :=
  let group := issues.filter (·.severity = s)
  if group.isEmpty then ""
  else
    line ("  " ++ paint colours bold 0 (str (Text.upper s.name.toList)) ++ " (" ++
      toString group.length ++ ")") ++
    String.join (group.map (issueLines colours)) ++ "\n"

/-- The scalars of a summary, one on a line. -/
def scalarLines (summary : Summary) : String :=
  let entries := scalars summary
  let width := entries.foldl (fun w (key, _) => max w key.utf8ByteSize) 0
  if entries.isEmpty then ""
  else
    String.join (entries.map fun (key, v) =>
      line ("  " ++ padRight width key ++ "  " ++ scalarText id v)) ++ "\n"

/-! ## Reports -/

/-- The report of a run. -/
def terminalRun (colours : Bool) (r : Run) : String :=
  line (paint colours bold 0 r.name ++ " " ++ paint colours dim 0 ("(" ++ r.id ++ ")") ++ "  " ++
    statusTag colours 0 r.status) ++ "\n" ++
  scalarLines r.summary ++
  (if r.issues.isEmpty then line ("  " ++ paint colours (coloured .green) 0 "No issues.")
   else String.join (Severity.all.map (severityGroup colours r.issues))) ++
  match r.failure with
  | some failure => line ("  " ++ paint colours (coloured .red) 0 "check failed:" ++ " " ++ failure)
  | none => ""

/-- A row of the table of checks. -/
def checkRow (id status errors warnings infos message : String) : String :=
  line ("  " ++ padRight 20 id ++ " " ++ status ++ " " ++ padLeft 6 errors ++ " " ++
    padLeft 6 warnings ++ " " ++ padLeft 6 infos ++ "  " ++ message)

/-- The row of a run. -/
def runRow (colours : Bool) (r : Run) : String :=
  let c := r.counts
  checkRow r.id (statusTag colours 6 r.status) (toString c.errors) (toString c.warnings)
    (toString c.infos) (paint colours dim 0 r.message)

/-- The sums over a suite on one line. -/
def totalsLine (colours : Bool) (s : Suite) : String :=
  let t := s.totals
  let suppressed :=
    if t.suppressed = 0 then "" else " (" ++ toString t.suppressed ++ " suppressed)"
  let verdict :=
    if s.passed then paint colours (coloured .green) 0 "PASSED"
    else paint colours (coloured .red) 0 "FAILED"
  line ("  " ++ toString t.checks ++ " checks: " ++ toString t.pass ++ " pass, " ++
    toString t.warn ++ " warn, " ++ toString t.fail ++ " fail  |  " ++ toString t.errors ++
    " errors, " ++ toString t.warnings ++ " warnings, " ++ toString t.infos ++ " info" ++
    suppressed ++ "  " ++ verdict)

/-- The report of a suite. -/
def terminalSuite (colours : Bool) (s : Suite) : String :=
  line (paint colours { bold := true, colour := some .cyan } 0 toolName ++ " " ++
    paint colours dim 0 ("v" ++ toolVersion)) ++
  line ("  " ++ paint colours dim 0 "Root: " ++ s.root) ++
  line ("  " ++ paint colours dim 0 "Mode: " ++ s.mode.name) ++ "\n" ++
  checkRow "CHECK" "STATUS" "ERROR" "WARN" "INFO" "METRIC" ++
  String.join (s.runs.map (runRow colours)) ++ "\n" ++
  totalsLine colours s

end GodotLint.Report
