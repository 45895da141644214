import GodotLint.Script.Function

/-!
# Mentions

What the code of a script mentions of other files: resource paths, classes, signals, input
actions and members of capitalised names. The kinds of the other extractors are listed too, since
the project index keeps all mentions together.
-/

namespace GodotLint

open Text

/-- What is mentioned. -/
inductive MentionKind where
  | resourcePath
  | className
  | signalEmit
  | signalConnect
  | nodePath
  | awaitTarget
  | dictKey
  | magicNumber
  | inputAction
  | autoloadMember
  deriving DecidableEq, Repr

namespace MentionKind

/-- The name of the kind in reports. -/
def name : MentionKind → String
  | .resourcePath => "resource_path"
  | .className => "class_name"
  | .signalEmit => "signal_emit"
  | .signalConnect => "signal_connect"
  | .nodePath => "node_path"
  | .awaitTarget => "await_target"
  | .dictKey => "dict_key"
  | .magicNumber => "magic_number"
  | .inputAction => "input_action"
  | .autoloadMember => "autoload_member"

/-- The place of the kind among mentions of one line. -/
def rank : MentionKind → Nat
  | .resourcePath => 0
  | .className => 1
  | .signalEmit => 2
  | .signalConnect => 3
  | .nodePath => 4
  | .awaitTarget => 5
  | .dictKey => 6
  | .magicNumber => 7
  | .inputAction => 8
  | .autoloadMember => 9

end MentionKind

/-- One mention in a script. -/
structure Mention where
  kind : MentionKind
  target : String
  line : Nat
  function : Option String
  deriving DecidableEq, Repr

namespace Mention

open Pattern

/-- The characters of a quoted `res://` path. -/
def resourceString : Pattern :=
  quoteMark ++ .group 1 (lit "res://" ++ unquoted) ++ quoteMark

/-- An identifier that starts with a capital. -/
def className : Pattern := .oneOf [.range 'A' 'Z'] ++ .star identPart

/-- A class after a type operator or a colon, or before `.new(`. -/
def classUse : Pattern :=
  choice [.wordEdge ++ word ["is", "as", "extends"] ++ blanks1, .char ':' ++ blanks,
      lit "->" ++ blanks, .wordEdge ++ lit "Array["] ++ .group 1 className ++ .wordEdge <|>
    .wordEdge ++ .group 2 className ++ lit ".new" ++ blanks ++ .char '('

/-- A call of `name` with a quoted identifier first. -/
def callWithName (name : String) : Pattern :=
  .wordEdge ++ lit name ++ blanks ++ .char '(' ++ blanks ++ quoteMark ++ .group 1 ident ++ quoteMark

/-- A call of the method `name` of an identifier. -/
def methodCall (name : String) : Pattern :=
  .wordEdge ++ .group 1 ident ++ .char '.' ++ lit name ++ blanks ++ .char '('

/-- A call that takes input actions, with its arguments. -/
def actionCall : Pattern :=
  .wordEdge ++ .group 1 (word ["is_action_pressed", "is_action_just_pressed",
    "is_action_just_released", "is_action_released", "is_action", "get_action_strength",
    "get_action_raw_strength", "has_action", "action_press", "action_release", "get_axis",
    "get_vector"]) ++ blanks ++ .char '(' ++ .group 2 (.star (charNotOf ")")) ++ .char ')'

/-- A quoted text. -/
def quoted : Pattern := quoteMark ++ .group 1 unquoted ++ quoteMark

/-- A member of a capitalised name. -/
def qualified : Pattern := .wordEdge ++ className ++ .char '.' ++ ident

/-- How many of its arguments are action names. -/
def actionCount (call : List Char) : Nat :=
  if call == "get_axis".toList then 2 else if call == "get_vector".toList then 4 else 1

/-- The texts of one group in all matches that hold it. -/
def groupsOf (p : Pattern) (index : Nat) (code : List Char) : List String :=
  (p.findAll code).filterMap fun m => (m.group? index).map (·.text)

/-- The texts of one group in all matches, leaving out those that start inside a literal. -/
def unquotedGroupsOf (p : Pattern) (index : Nat) (code : List Char) : List String :=
  (p.findAll code).filterMap fun m => (m.group? index).bind fun g =>
    if Line.isInsideLiteral code g.start then none else some g.text

/-- The classes that a line of code uses. -/
def classesIn (code : List Char) : List String :=
  (classUse.findAll code).filterMap fun m => (m.group? 1 <|> m.group? 2).bind fun g =>
    if Line.isInsideLiteral code g.start then none else some g.text

/-- The input actions that a line of code asks for. -/
def actionsIn (code : List Char) : List String :=
  (actionCall.findAll code).flatMap fun m =>
    if Line.isInsideLiteral code m.start then []
    else (groupsOf quoted 1 (m.group 2)).take (actionCount (m.group 1))

/-- The qualified members that a line of code uses. -/
def membersIn (code : List Char) : List String :=
  (qualified.findAll code).filterMap fun m =>
    if Line.isInsideLiteral code m.start then none else some m.whole.text

/-- The mentions on a line of code, kind by kind. -/
def inCode (code : List Char) : List (MentionKind × String) :=
  (groupsOf resourceString 1 code).map (.resourcePath, ·) ++
  (classesIn code).map (.className, ·) ++
  (groupsOf (callWithName "emit_signal") 1 code).map (.signalEmit, ·) ++
  (unquotedGroupsOf (methodCall "emit") 1 code).map (.signalEmit, ·) ++
  (groupsOf (callWithName "connect") 1 code).map (.signalConnect, ·) ++
  (unquotedGroupsOf (methodCall "connect") 1 code).map (.signalConnect, ·) ++
  (actionsIn code).map (.inputAction, ·) ++
  (membersIn code).map (.autoloadMember, ·)

/-- The mentions on one line. -/
def ofLine (functions : List Function) (raw : List Char) (line : Nat) : List Mention :=
  let code := Line.code raw
  if isAllBlank code then []
  else
    let function := Function.enclosingBody? functions line
    (inCode code).map fun (kind, target) => { kind, target, line, function }

/-- The mentions of a script. -/
def ofLines (lines : List (List Char)) (functions : List Function) : List Mention :=
  (lines.zipIdx 1).flatMap fun (raw, line) => ofLine functions raw line

end Mention

end GodotLint
