import GodotLint.Line.Basic
import GodotLint.Ordering
import GodotLint.Pattern.Basic

/-!
# Functions of a script

A function is a header line and the lines below it that are indented deeper. Blank lines and
comments never end a body, and those after the last line of code are not part of it. A parameter
list is read up to the end of its first line.
-/

namespace GodotLint

open Text

/-- One `func` of a script. Lines count from one. -/
structure Function where
  name : String
  /-- The line of the header. -/
  line : Nat
  /-- The last line of the body, or the header's when there is no body. -/
  endLine : Nat
  /-- Columns of indentation of the header. -/
  indent : Nat
  isStatic : Bool
  /-- Names of the parameters, without types and defaults. -/
  params : List String
  returnType : Option String
  /-- Lines of the body that do something. -/
  statements : Nat
  /-- The deepest nesting of control-flow blocks in the body. -/
  maxNesting : Nat
  /-- A `##` comment stands above the header, with nothing but annotations between. -/
  hasDocComment : Bool
  deriving DecidableEq, Repr

namespace Function

/-- Private functions start with an underscore. -/
def isPrivate (f : Function) : Bool := f.name.startsWith "_"

/-- Lines of the body. -/
def bodyLines (f : Function) : Nat := f.endLine - f.line

/-- Whether a line belongs to the function, header included. -/
def contains (f : Function) (line : Nat) : Bool := f.line ≤ line && line ≤ f.endLine

open Pattern in
/-- A type as it is written after a colon or an arrow. -/
def typeName : Pattern :=
  identStart ++ .star (.oneOf [.range 'A' 'Z', .range 'a' 'z', .range '0' '9', .only '_',
    .only '[', .only ']', .only '.'])

open Pattern in
/-- The header of a function: indentation, `static`, name, parameters and return type. -/
def header : Pattern :=
  .atStart ++ .group 1 blanks ++ .opt (.group 2 (lit "static" ++ blanks1)) ++ lit "func" ++
    blanks1 ++ .group 3 ident ++ blanks ++ .char '(' ++ .group 4 (.star (charNotOf ")")) ++
    .opt (.char ')') ++ .opt (blanks ++ lit "->" ++ blanks ++ .group 5 typeName)

open Pattern in
/-- A line that opens a block of control flow. -/
def blockOpener : Pattern :=
  .atStart ++ .group 1 (word ["if", "elif", "else", "for", "while", "match"]) ++ .wordEdge ++
    .star .any ++ .char ':' ++ .atEnd

/-- The names in a parameter list. -/
def parameterNames (list : List Char) : List String :=
  (splitAt ',' list).filterMap fun parameter =>
    let name := trim (before (fun c => c == ':' || c == '=') parameter)
    if name.isEmpty then none else some (str name)

/-- Number of the lines below a header that form its body. -/
def bodyLength (headerIndent : Nat) : List (List Char) → Nat
  | [] => 0
  | line :: rest =>
    if Line.isBlankOrComment line then
      match bodyLength headerIndent rest with
      | 0 => 0
      | n + 1 => n + 2
    else if Line.indent line ≤ headerIndent then 0
    else bodyLength headerIndent rest + 1

/-- Whether a line does something: it holds code other than `pass`, `else:` and closing
brackets. -/
def isStatement (line : List Char) : Bool :=
  let code := trim (Line.code line)
  !code.isEmpty && code != "pass".toList && code != "else:".toList &&
    !code.all ([')', ']', '\x7d', ',', ' '].contains ·)

/-- The deepest nesting reached by the lines, `blocks` holding the indentations of the blocks
that are open before them, the innermost first. -/
def nesting : (blocks : List Nat) → List (List Char) → Nat
  | _, [] => 0
  | blocks, line :: rest =>
    if Line.isBlankOrComment line then nesting blocks rest
    else
      let indent := Line.indent line
      let blocks := blocks.dropWhile (indent ≤ ·)
      let blocks' :=
        if blockOpener.occursIn (trim (Line.code line)) then indent :: blocks else blocks
      max blocks.length (nesting blocks' rest)

/-- Whether the lines above a header, the nearest first, document it. -/
def isDocumented (above : List (List Char)) : Bool :=
  match above.dropWhile fun line => startsWith ['@'] (trim line) with
  | [] => false
  | line :: _ => startsWith ['#', '#'] (trim line)

/-- The function whose header is the given line, between the lines above it, the nearest first,
and those below it. -/
def ofHeader? (above : List (List Char)) (number : Nat) (line : List Char)
    (below : List (List Char)) : Option Function :=
  (header.find? (Line.code line)).map fun m =>
    let indent := Line.indent (m.group 1)
    let body := below.take (bodyLength indent below)
    { name := str (m.group 3)
      line := number
      endLine := number + body.length
      indent
      isStatic := (m.group? 2).isSome
      params := parameterNames (m.group 4)
      returnType := (m.group? 5).map (·.text)
      statements := body.countP isStatement
      maxNesting := nesting [] body
      hasDocComment := isDocumented above }

/-- The functions among the lines from `number` on, given the lines above, the nearest first. -/
def scan (above : List (List Char)) (number : Nat) : List (List Char) → List Function
  | [] => []
  | line :: below =>
    (ofHeader? above number line below).toList ++ scan (line :: above) (number + 1) below

/-- The functions of a script in the order of their headers. -/
def ofLines (lines : List (List Char)) : List Function := scan [] 1 lines

/-- The innermost function that contains a line, header included. -/
def enclosing? (functions : List Function) (line : Nat) : Option Function :=
  lastMax? (·.line) (functions.filter (·.contains line))

/-- The name of the innermost function in whose body a line lies; a header is in no body. -/
def enclosingBody? (functions : List Function) (line : Nat) : Option String :=
  match enclosing? functions line with
  | some f => if f.line = line then none else some f.name
  | none => none

end Function

end GodotLint
