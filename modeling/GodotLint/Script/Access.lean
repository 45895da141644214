import GodotLint.Script.Function

/-!
# Dictionary accesses

Reads and writes of dictionaries by a literal key: `name["key"]`, `name.get("key"` and
`name.has("key"`, where the name may be dotted.
-/

namespace GodotLint

open Text

/-- The form of a dictionary access. -/
inductive AccessForm where
  /-- `name["key"]` -/
  | bracket
  /-- `name.get("key"` -/
  | get
  /-- `name.has("key"` -/
  | has
  deriving DecidableEq, Repr

/-- The name of the form in reports. -/
def AccessForm.name : AccessForm → String
  | .bracket => "bracket"
  | .get => "get"
  | .has => "has"

/-- One access of a dictionary by a literal key. -/
structure Access where
  /-- What is accessed, possibly dotted. -/
  receiver : String
  key : String
  line : Nat
  /-- The byte offset of the receiver. -/
  column : Nat
  /-- The byte offset just past the closing bracket, or past the key of a call. -/
  stop : Nat
  form : AccessForm
  /-- The access is written to. -/
  isAssignment : Bool
  /-- The line tests for the key or sits in a condition. -/
  guarded : Bool
  deriving DecidableEq, Repr

namespace Access

/-- The last segment of the receiver. -/
def receiverName (a : Access) : String := str (afterLast '.' a.receiver.toList)

/-- A form that does not fail when the key is missing. -/
def isSafeForm (a : Access) : Bool := a.form != .bracket

/-- Order by line, then by column. -/
def le (a b : Access) : Bool := a.line < b.line || (a.line == b.line && a.column ≤ b.column)

end Access

namespace Script

open Pattern

/-- An identifier path, segments joined by dots. -/
def identPath : Pattern := ident ++ .star (.char '.' ++ ident)

/-- A quoted key without backslashes, in group `double` or `single` after its quotation mark. -/
def quotedKey (double single : Nat) : Pattern :=
  .char '"' ++ .group double (.plus (charNotOf "\"\\")) ++ .char '"' <|>
    .char '\x27' ++ .group single (.plus (charNotOf "'\\")) ++ .char '\x27'

/-- `name["key"]` -/
def bracketAccess : Pattern :=
  .group 1 identPath ++ blanks ++ .char '[' ++ blanks ++ quotedKey 2 3 ++ blanks ++ .char ']'

/-- `name.get("key"` and `name.has("key"` -/
def callAccess : Pattern :=
  .group 1 identPath ++ .char '.' ++ .group 2 (word ["get", "has"]) ++ .char '(' ++ blanks ++
    quotedKey 3 4

/-- An assignment operator after an access and its further subscripts. -/
def assignmentAfter : Pattern :=
  .atStart ++ .star (blanks ++ .char '[' ++ .star (charNotOf "]") ++ .char ']') ++ blanks ++
    choice [.char '=' ++ charNotOf "=", charOf "-+*/%|&^" ++ .char '=', lit "<<=", lit ">>="]

/-- A condition. -/
def condition : Pattern :=
  (.atStart <|> .oneOf [.blank, .only '(']) ++ word ["if", "elif"] ++ .wordEdge

/-- Whether a line of code tests for a key, or sits in a condition. -/
def isGuarded (code : List Char) (key : List Char) : Bool :=
  contains ".has(".toList code || condition.occursIn (Line.mask code) ||
    contains (['"'] ++ key ++ "\" in ".toList) code ||
    contains (['\x27'] ++ key ++ "' in ".toList) code

/-- The bracket accesses on a line of code. -/
def bracketAccesses (code : List Char) (line : Nat) : List Access :=
  (bracketAccess.findAll code).filterMap fun m =>
    if Line.isInsideLiteral code m.start then none
    else
      let key := m.group 2 ++ m.group 3
      some
        { receiver := str (m.group 1), key := str key, line, column := m.start, stop := m.stop
          form := .bracket
          isAssignment := assignmentAfter.occursIn m.after.rest
          guarded := isGuarded code key }

/-- The calls of `get` and `has` on a line of code. -/
def callAccesses (code : List Char) (line : Nat) : List Access :=
  (callAccess.findAll code).filterMap fun m =>
    if Line.isInsideLiteral code m.start then none
    else some
      { receiver := str (m.group 1), key := str (m.group 3 ++ m.group 4), line, column := m.start
        stop := m.stop
        form := if m.group 2 == "get".toList then .get else .has
        isAssignment := false
        guarded := true }

/-- Whether a line can hold an access at all. -/
def mayAccess (code : List Char) : Bool :=
  code.contains '[' || contains ".get(".toList code || contains ".has(".toList code

/-- The accesses on one line, brackets first. -/
def accessesOfLine (raw : List Char) (line : Nat) : List Access :=
  let code := Line.code raw
  if mayAccess code then bracketAccesses code line ++ callAccesses code line else []

/-- The dictionary accesses of a script, from left to right on each line. -/
def accesses (lines : List (List Char)) : List Access :=
  stableSort Access.le ((lines.zipIdx 1).flatMap fun (raw, line) => accessesOfLine raw line)

end Script

end GodotLint
