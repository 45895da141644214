import GodotLint.Check.Basic

/-!
# Suppression of issues

A comment in a script silences issues: on its own line, on the next line, or in the whole file. It
names a kind of issue, a check, or `*` for all.
-/

namespace GodotLint

open Text

/-- The lines that a directive silences. -/
inductive SuppressionScope where
  /-- The line of the directive. -/
  | line
  /-- The line below the directive. -/
  | nextLine
  /-- The whole file. -/
  | file
  deriving DecidableEq, Repr

/-- The name of the scope. -/
def SuppressionScope.name : SuppressionScope → String
  | .line => "line"
  | .nextLine => "next_line"
  | .file => "file"

/-- A directive in a script. -/
structure Suppression where
  file : String
  /-- The line of the directive, zero for one of file scope. -/
  line : Nat
  scope : SuppressionScope
  /-- A kind of issue, the id of a check, or `*`. -/
  target : String
  reason : String
  deriving DecidableEq, Repr

namespace Suppression

/-- Whether a directive names an issue. -/
def names (s : Suppression) (i : Issue) : Bool :=
  s.target == "*" || s.target == i.kind || s.target == i.check

/-- Whether a directive silences an issue. -/
def covers (s : Suppression) (i : Issue) : Bool :=
  i.file == s.file && s.names i &&
    match s.scope with
    | .file => true
    | .line => i.line == s.line
    | .nextLine => i.line == s.line + 1

open Pattern in
/-- A directive: its verb as group 1, its target as group 2 and its reason as group 3. -/
def directive : Pattern :=
  .char '#' ++ blanks ++ lit "gdscan:" ++
    .group 1 (lit "ignore" ++ .opt (word ["-file", "-next-line"])) ++ blanks1 ++
    .group 2 (.plus (.noneOf [.blank])) ++ blanks ++
    .opt (.char '-' ++ blanks ++ .group 3 (.star .any))

/-- The last line on which a directive may silence a file that has code above it. -/
def headerLines : Nat := 10

/-- The scope of a directive, given its verb, the text before it and whether it may silence the
file. -/
def scopeOf? (verb before : List Char) (mayCoverFile : Bool) : Option SuppressionScope :=
  if verb == "ignore-file".toList then if mayCoverFile then some .file else none
  else if verb == "ignore-next-line".toList || isAllBlank before then some .nextLine
  else some .line

/-- The directive on a line. `inHeader` tells that no code stands above it. -/
def ofLine? (file : String) (raw : List Char) (line : Nat) (inHeader : Bool) :
    Option Suppression := do
  let m ← directive.find? raw
  let scope ← scopeOf? (m.group 1) (takeBytes m.start raw) (inHeader || line ≤ headerLines)
  return {
    file, scope
    line := if scope = .file then 0 else line
    target := str (m.group 2)
    reason := str (trim (m.group 3)) }

/-- Whether a line is blank or a comment as a whole. -/
def isHeaderLine (raw : List Char) : Bool :=
  let trimmed := trim raw
  trimmed.isEmpty || trimmed.head? == some '#'

/-- The directives on the lines from `line` on. -/
def scan (file : String) (inHeader : Bool) (line : Nat) : List (List Char) → List Suppression
  | [] => []
  | raw :: rest =>
    let inHeader := inHeader && isHeaderLine raw
    (ofLine? file raw line inHeader).toList ++ scan file inHeader (line + 1) rest

/-- The directives of a script. -/
def ofLines (file : String) (lines : List (List Char)) : List Suppression := scan file true 1 lines

end Suppression

/-- The directives of each file that has some. -/
abbrev Suppressions := SortedMap (List Suppression)

namespace Suppressions

/-- The directives of some scripts. -/
def ofSources (sources : List Source) : Suppressions :=
  .ofList ((sources.map fun s => (s.path, Suppression.ofLines s.path s.lines)).filter
    fun (_, found) => !found.isEmpty)

/-- The number of directives. -/
def total (s : Suppressions) : Nat := sumOf List.length s.values

/-- Whether a directive silences an issue. -/
def silences (s : Suppressions) (i : Issue) : Bool :=
  ((s.get? i.file).getD []).any (·.covers i)

/-- The issues that are kept and those that are silenced. -/
def split (s : Suppressions) (issues : List Issue) : List Issue × List Issue :=
  issues.partition fun i => !s.silences i

end Suppressions

end GodotLint
