import GodotLint.Script.Function

/-!
# Suspension points and match blocks

`await` sites, and `match` blocks with their branches. A branch label is a line at the first
indentation below the header of its block; the block ends at the first line of code indented no
deeper than the header. A label that spans lines is read on its first line only.
-/

namespace GodotLint

open Text

/-- An `await` and what it waits for. -/
structure Await where
  expr : String
  line : Nat
  function : Option String
  deriving DecidableEq, Repr

/-- One branch of a match block. -/
structure Branch where
  /-- The alternatives of the label. -/
  patterns : List String
  line : Nat
  deriving DecidableEq, Repr

/-- A match block. -/
structure MatchBlock where
  subject : String
  line : Nat
  branches : List Branch
  function : Option String
  deriving DecidableEq, Repr

namespace MatchBlock

/-- Every pattern of the block and the line of its branch. -/
def patterns (b : MatchBlock) : List (String × Nat) :=
  b.branches.flatMap fun branch => branch.patterns.map fun p => (p, branch.line)

/-- A `_` or a bare variable matches everything. -/
def isCatchAll (pattern : String) : Bool := pattern == "_" || pattern.startsWith "var "

/-- Some branch matches everything. -/
def hasDefault (b : MatchBlock) : Bool := b.patterns.any (isCatchAll ·.1)

end MatchBlock

namespace Script

open Pattern

/-- `await` and an expression. -/
def awaitExpression : Pattern :=
  .wordEdge ++ lit "await" ++ blanks1 ++ .group 1 (.plus .any)

/-- The header of a match block, its subject as group 2. -/
def matchHeader : Pattern :=
  .atStart ++ .group 1 blanks ++ lit "match" ++ blanks1 ++ .group 2 (.lazyPlus .any) ++ blanks ++
    .char ':' ++ blanks ++ .atEnd

/-- The `await` of a line, if its first one is outside literals. -/
def awaitOf? (functions : List Function) (raw : List Char) (line : Nat) : Option Await := do
  let code := Line.code raw
  let m ← awaitExpression.find? code
  if Line.isInsideLiteral code m.start then none
  else
    some { expr := str (trim (m.group 1)), line,
           function := (Function.enclosing? functions line).map (·.name) }

/-- The `await` sites of a script. -/
def awaits (lines : List (List Char)) (functions : List Function) : List Await :=
  (lines.zipIdx 1).filterMap fun (raw, line) => awaitOf? functions raw line

/-! ## Labels -/

/-- A reader of a branch label: the open bracket depth and the quotation mark of the literal it is
in. Inside a literal only that mark counts. -/
structure LabelState where
  depth : Int := 0
  mark : Option Char := none
  deriving DecidableEq, Repr

namespace LabelState

/-- Neither in a literal nor in brackets. -/
def atTop (s : LabelState) : Bool := s.mark.isNone && s.depth == 0

/-- The state after a character. -/
def next (s : LabelState) (c : Char) : LabelState :=
  match s.mark with
  | some mark => if c == mark then { s with mark := none } else s
  | none =>
    if c == '"' || c == '\x27' then { s with mark := some c }
    else if c == '[' || c == '\x7b' || c == '(' then { s with depth := s.depth + 1 }
    else if c == ']' || c == '\x7d' || c == ')' then { s with depth := s.depth - 1 }
    else s

end LabelState

/-- The text before the first colon at top level. -/
def beforeColon? (s : LabelState) : List Char → Option (List Char)
  | [] => none
  | c :: rest =>
    if c == ':' && s.atTop then some []
    else (beforeColon? (s.next c) rest).map (c :: ·)

/-- The label of a branch line. -/
def branchLabel? (line : List Char) : Option (List Char) := (beforeColon? {} line).map trim

/-- The pieces between the commas at top level. -/
def splitTopCommas (s : LabelState) : List Char → List (List Char)
  | [] => [[]]
  | c :: rest =>
    if c == ',' && s.atTop then [] :: splitTopCommas s rest
    else
      match splitTopCommas (s.next c) rest with
      | [] => [[c]]
      | piece :: pieces => (c :: piece) :: pieces

/-- The alternatives of a label, without its `when` guard. An empty last alternative does not
count. -/
def labelPatterns (label : List Char) : List String :=
  let unguarded := match cutAt? " when ".toList label with
    | some (pattern, _) => pattern
    | none => label
  let pieces := (splitTopCommas {} unguarded).map trim
  let pieces := if pieces.getLast? == some [] then pieces.dropLast else pieces
  pieces.map str

/-! ## Blocks -/

/-- The branches among the lines from `line` on, below a header with the given indentation. `level`
is the indentation of the labels once the first is read. -/
def branchesBelow (headerIndent : Nat) (level : Option Nat) (line : Nat) :
    List (List Char) → List Branch
  | [] => []
  | raw :: rest =>
    let code := Line.code raw
    if isAllBlank code then branchesBelow headerIndent level (line + 1) rest
    else
      let indent := Line.indent code
      if indent ≤ headerIndent then []
      else
        let level := level.getD indent
        let branch := if indent = level then branchLabel? (trim code) else none
        (branch.map fun label => ({ patterns := labelPatterns label, line } : Branch)).toList ++
          branchesBelow headerIndent (some level) (line + 1) rest

/-- The match blocks among the lines from `line` on. -/
def matchBlocksFrom (functions : List Function) (line : Nat) : List (List Char) → List MatchBlock
  | [] => []
  | raw :: rest =>
    let block := (matchHeader.find? (Line.code raw)).map fun m =>
      { subject := str (m.group 2), line,
        branches := branchesBelow (Line.indent (m.group 1)) none (line + 1) rest,
        function := (Function.enclosing? functions line).map (·.name) : MatchBlock }
    block.toList ++ matchBlocksFrom functions (line + 1) rest

/-- The match blocks of a script. -/
def matchBlocks (lines : List (List Char)) (functions : List Function) : List MatchBlock :=
  matchBlocksFrom functions 1 lines

end Script

end GodotLint
