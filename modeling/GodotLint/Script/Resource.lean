import GodotLint.Script.Declaration

/-!
# What a script loads and looks up

Calls of `preload` and `load` with a literal path, a base given as a path, and node lookups by
literal path. Paths that are computed are not seen.
-/

namespace GodotLint

open Text

/-- How a script comes to depend on a resource. -/
inductive LoadKind where
  | preload
  | load
  | extends
  deriving DecidableEq, Repr

/-- The name of the kind in reports. -/
def LoadKind.name : LoadKind → String
  | .preload => "preload"
  | .load => "load"
  | .extends => "extends"

/-- When a resource is loaded. -/
inductive LoadScope where
  /-- With the class. -/
  | classBody
  /-- When the node is ready. -/
  | onready
  /-- When a function runs. -/
  | function
  deriving DecidableEq, Repr

/-- The name of the scope in reports. -/
def LoadScope.name : LoadScope → String
  | .classBody => "class"
  | .onready => "onready"
  | .function => "function"

/-- A resource that a script loads. -/
structure Load where
  kind : LoadKind
  /-- The path as it is written. -/
  target : String
  line : Nat
  scope : LoadScope
  function : Option String
  /-- The constant or variable that holds the result. -/
  binding : Option String
  deriving DecidableEq, Repr

/-- How a node is looked up. -/
inductive NodeLookup where
  | dollar
  | unique
  | getNode
  | getNodeOrNull
  | findChild
  deriving DecidableEq, Repr

/-- The name of the lookup in reports. -/
def NodeLookup.name : NodeLookup → String
  | .dollar => "dollar"
  | .unique => "unique"
  | .getNode => "get_node"
  | .getNodeOrNull => "get_node_or_null"
  | .findChild => "find_child"

/-- A node that a script looks up. -/
structure NodeRef where
  kind : NodeLookup
  path : String
  line : Nat
  /-- A missing node is provided for on the same line. -/
  safe : Bool
  onready : Bool
  function : Option String
  deriving DecidableEq, Repr

namespace Script

open Pattern

/-! ## Loads -/

/-- A call of `preload` or `load` with a quoted path. -/
def loadCall : Pattern :=
  .wordEdge ++ .group 1 (word ["preload", "load"]) ++ blanks ++ .char '(' ++ blanks ++ quoteMark ++
    .group 2 unquoted ++ quoteMark ++ blanks ++ .char ')'

/-- The name that a `const` or `var` at the start of a line binds. -/
def binding : Pattern :=
  .atStart ++ blanks ++
    .star (.char '@' ++ .plus (.oneOf [.range 'A' 'Z', .range 'a' 'z', .only '_']) ++ blanks1) ++
    .opt (lit "static" ++ blanks1) ++ word ["const", "var"] ++ blanks1 ++ .group 1 ident

/-- The loads on one line of code. -/
def loadsOfLine (functions : List Function) (raw : List Char) (line : Nat) : List Load :=
  let code := Line.code raw
  if !contains "load".toList code then []
  else
    let function := Function.enclosingBody? functions line
    (loadCall.findAll code).filterMap fun m =>
      if Line.isInsideLiteral code m.start then none
      else some
        { kind := if m.group 1 == "preload".toList then .preload else .load
          target := str (m.group 2)
          line
          scope :=
            if function.isSome then .function
            else if contains "@onready".toList code then .onready
            else .classBody
          function
          binding := (binding.find? code).map fun b => str (b.group 1) }

/-- The dependency on a base that is given as a path. -/
def loadOfBase (base : Extends) : Option Load :=
  if base.isPath then
    some { kind := .extends, target := base.target, line := base.line, scope := .classBody,
           function := none, binding := none }
  else none

/-- What a script loads, in the order of the lines. -/
def loads (lines : List (List Char)) (functions : List Function) (base : Option Extends) :
    List Load :=
  sortByNat (·.line) ((base.bind loadOfBase).toList ++
    (lines.zipIdx 1).flatMap fun (raw, line) => loadsOfLine functions raw line)

/-! ## Node lookups -/

/-- One segment of a node path, which may be a unique name. -/
def nodePathSegment : Pattern :=
  .opt (.char '%') ++ .plus (.oneOf [.range 'A' 'Z', .range 'a' 'z', .range '0' '9', .only '_'])

/-- `$Path` and `$"Path"`. -/
def dollarPath : Pattern :=
  .char '$' ++ .group 1 (.char '"' ++ .plus (charNotOf "\"") ++ .char '"' <|>
    nodePathSegment ++ .star (.char '/' ++ nodePathSegment))

/-- `%Name` where an operand may stand. -/
def uniqueName : Pattern :=
  (.atStart <|> .oneOf [.blank, .only '(', .only '=', .only ',', .only '[']) ++ .char '%' ++
    .group 1 ident

/-- A lookup call with a quoted path. -/
def lookupCall : Pattern :=
  .wordEdge ++ .group 1 (word ["get_node_or_null", "get_node", "find_child"]) ++ blanks ++
    .char '(' ++ blanks ++ quoteMark ++ .group 2 unquoted ++ quoteMark

/-- A test for a missing node. -/
def nullCheck : Pattern :=
  choice [
    charOf "!=" ++ .char '=' ++ blanks ++ lit "null" ++ .wordEdge,
    .wordEdge ++ lit "is_instance_valid" ++ blanks ++ .char '(',
    .wordEdge ++ lit "has_node" ++ blanks ++ .char '(',
    .wordEdge ++ lit "if" ++ blanks1 ++ .opt (lit "not" ++ blanks1) ++ charOf "$%"]

/-- The lookups on a line of code with the byte offset of each: by `$`, by unique name and by
call. -/
def lookupsIn (code : List Char) : List (Nat × NodeLookup × String) :=
  let dollars := (dollarPath.findAll code).filterMap fun m =>
    if Line.isInsideLiteral code m.start then none
    else some (m.start, .dollar, str (trimWhile (· == '"') (m.group 1)))
  let uniques := (uniqueName.findAll code).filterMap fun m =>
    (m.group? 1).bind fun name =>
      if Line.isInsideLiteral code name.start then none
      else some (name.start, .unique, name.text)
  let calls := (lookupCall.findAll code).filterMap fun m =>
    if Line.isInsideLiteral code m.start then none
    else
      let kind : NodeLookup :=
        if m.group 1 == "get_node_or_null".toList then .getNodeOrNull
        else if m.group 1 == "find_child".toList then .findChild
        else .getNode
      some (m.start, kind, str (m.group 2))
  sortByNat (·.1) (dollars ++ uniques ++ calls)

/-- Whether a line can hold a lookup at all. -/
def mayLookUp (code : List Char) : Bool :=
  code.contains '$' || code.contains '%' || contains "get_node".toList code ||
    contains "find_child".toList code

/-- The lookups on one line. -/
def nodeRefsOfLine (functions : List Function) (raw : List Char) (line : Nat) : List NodeRef :=
  let code := Line.code raw
  if !mayLookUp code then []
  else
    let onready := contains "@onready".toList code
    let checked := nullCheck.occursIn code
    let function := Function.enclosingBody? functions line
    (lookupsIn code).map fun (_, kind, path) =>
      { kind, path, line, safe := kind == .getNodeOrNull || onready || checked, onready, function }

/-- The node lookups of a script. -/
def nodeRefs (lines : List (List Char)) (functions : List Function) : List NodeRef :=
  (lines.zipIdx 1).flatMap fun (raw, line) => nodeRefsOfLine functions raw line

end Script

end GodotLint
