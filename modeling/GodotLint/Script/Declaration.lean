import GodotLint.Script.Function

/-!
# Declarations of a script

Functions, the class and its base, inner classes, constants, variables with their annotations,
signals and enums with their values. Annotations on lines of their own belong to the variable
below them. The body of an enum may span lines and is read up to its closing brace.
-/

namespace GodotLint

open Text

/-- What a declaration declares. -/
inductive DeclarationKind where
  | function
  | scriptClass
  | innerClass
  | constant
  | variable
  | signal
  | enum
  | enumValue
  | export
  deriving DecidableEq, Repr

/-- The name of the kind in reports. -/
def DeclarationKind.name : DeclarationKind → String
  | .function => "function"
  | .scriptClass => "class"
  | .innerClass => "inner_class"
  | .constant => "constant"
  | .variable => "variable"
  | .signal => "signal"
  | .enum => "enum"
  | .enumValue => "enum_value"
  | .export => "export"

/-- An annotation such as `@export_range(0, 10)`. -/
structure Annotation where
  name : String
  args : Option String
  deriving DecidableEq, Repr

/-- The base of a script. -/
structure Extends where
  /-- The name of a class, or a path without its quotation marks. -/
  target : String
  line : Nat
  /-- The base is given as a path. -/
  isPath : Bool
  deriving DecidableEq, Repr

/-- One declared name. -/
structure Declaration where
  kind : DeclarationKind
  name : String
  line : Nat
  isStatic : Bool := false
  typeHint : Option String := none
  /-- The text of the value of a constant or variable. -/
  value : Option String := none
  annotations : List Annotation := []
  indent : Nat
  /-- The function that a local belongs to. -/
  function : Option String := none
  /-- The declared base of a class. -/
  base : Option String := none
  deriving DecidableEq, Repr

namespace Declaration

/-- Private names start with an underscore. -/
def isPrivate (d : Declaration) : Bool := d.name.startsWith "_"

/-- There is a value, and it is not empty. -/
def hasDefault (d : Declaration) : Bool := d.value.any (· != "")

/-- The first annotation that exports the variable. -/
def exportAnnotation? (d : Declaration) : Option Annotation :=
  d.annotations.find? (·.name.startsWith "export")

/-- Assigned when the node is ready. -/
def isOnready (d : Declaration) : Bool := d.annotations.any (·.name == "onready")

/-- Declared outside every function. -/
def isMember (d : Declaration) : Bool := d.function.isNone

end Declaration

namespace Script

open Pattern

/-! ## Shapes of declarations -/

/-- An identifier that may be qualified by dots. -/
def dottedName : Pattern :=
  identStart ++
    .star (.oneOf [.range 'A' 'Z', .range 'a' 'z', .range '0' '9', .only '_', .only '.'])

/-- An annotation with its arguments, the name as group 1 and the arguments as group 2. -/
def annotationShape : Pattern :=
  .char '@' ++ .group 1 ident ++ .opt (.char '(' ++ .group 2 (.star (charNotOf ")")) ++ .char ')')

/-- An annotation of which nothing is remembered. -/
def bareAnnotationShape : Pattern :=
  .char '@' ++ ident ++ .opt (.char '(' ++ .star (charNotOf ")") ++ .char ')')

/-- A line that holds annotations only. -/
def annotationsOnly : Pattern :=
  .atStart ++ blanks ++ .plus (bareAnnotationShape ++ blanks) ++ .atEnd

/-- `class_name NAME`, with an icon and a base. -/
def classNameClause : Pattern :=
  .atStart ++ lit "class_name" ++ blanks1 ++ .group 1 ident ++
    .opt (blanks ++ .char ',' ++ blanks ++ .char '"' ++ .star (charNotOf "\"") ++ .char '"') ++
    .opt (blanks1 ++ lit "extends" ++ blanks1 ++ .group 2 (.plus (.noneOf [.blank])))

/-- `extends` with a class or a quoted path. -/
def extendsClause : Pattern :=
  .atStart ++ lit "extends" ++ blanks1 ++ .group 1
    (choice [.char '"' ++ .plus (charNotOf "\"") ++ .char '"',
      .char '\x27' ++ .plus (charNotOf "'") ++ .char '\x27', dottedName])

/-- `class NAME:`, with a base. -/
def innerClassHeader : Pattern :=
  .atStart ++ .group 1 blanks ++ lit "class" ++ blanks1 ++ .group 2 ident ++
    .opt (blanks1 ++ lit "extends" ++ blanks1 ++
      .group 3 (.char '"' ++ .plus (charNotOf "\"") ++ .char '"' <|> dottedName)) ++
    blanks ++ .char ':'

/-- A type after a colon, as group `index`. -/
def typeHint (index : Nat) : Pattern :=
  .opt (.char ':' ++ blanks ++ .group index Function.typeName)

/-- `const NAME: Type = value`. -/
def constantDeclaration : Pattern :=
  .atStart ++ .group 1 blanks ++ .opt (lit "static" ++ blanks1) ++ lit "const" ++ blanks1 ++
    .group 2 ident ++ blanks ++ typeHint 3 ++ blanks ++ .opt (.char ':') ++ .char '=' ++ blanks ++
    .group 4 (.star .any) ++ .atEnd

/-- `var NAME: Type = value`, after annotations and `static`. -/
def variableDeclaration : Pattern :=
  .atStart ++ .group 1 blanks ++ .group 2 (.star (bareAnnotationShape ++ blanks1)) ++
    .opt (.group 3 (lit "static" ++ blanks1)) ++ lit "var" ++ blanks1 ++ .group 4 ident ++
    blanks ++ typeHint 5 ++ blanks ++
    .opt (.opt (.char ':') ++ .char '=' ++ blanks ++ .group 6 (.star .any))

/-- `signal NAME`. -/
def signalDeclaration : Pattern :=
  .atStart ++ .group 1 blanks ++ lit "signal" ++ blanks1 ++ .group 2 ident

/-- `enum NAME` and an opening brace, after which the values start. -/
def enumHeader : Pattern :=
  .atStart ++ .group 1 blanks ++ lit "enum" ++ blanks ++ .opt (.group 2 ident) ++ blanks ++
    .char '\x7b' ++ .group 3 (.star .any) ++ .atEnd

/-- The annotations in a text. -/
def annotations (s : List Char) : List Annotation :=
  (annotationShape.findAll s).map fun m =>
    { name := str (m.group 1), args := (m.group? 2).map fun args => str (trim args.chars) }

/-- Whether a character is a quotation mark. -/
def isQuoteMark (c : Char) : Bool := c == '"' || c == '\x27'

/-- The base that a clause names. -/
def extendsOf (written : List Char) (line : Nat) : Extends where
  target := str (trimWhile isQuoteMark written)
  line
  isPath := written.head?.any isQuoteMark

/-! ## Enum bodies -/

/-- The values named on one line of an enum body: the items before the closing brace, without
their numbers. -/
def enumValues (s : List Char) : List String :=
  (splitAt ',' (before (· == '\x7d') s)).filterMap fun item =>
    let name := trim (before (· == '=') item)
    if !name.isEmpty && name.all (fun c => isAlphanumeric c || c == '_') then some (str name)
    else none

/-- Declarations of the values named on one line of an enum body. -/
def enumValueDeclarations (s : List Char) (line indent : Nat) : List Declaration :=
  (enumValues s).map fun name => { kind := .enumValue, name, line, indent }

/-! ## Reading a script -/

/-- What has been declared so far. -/
structure Declared where
  declarations : List Declaration
  /-- The last `class_name` and its line. -/
  className : Option (String × Nat) := none
  /-- The last `extends`. -/
  base : Option Extends := none
  /-- Annotations that wait for the variable below them. -/
  pending : List Annotation := []
  /-- The indentation of the enum whose closing brace is still to come. -/
  openEnum : Option Nat := none

/-- Gives the first class among the declarations a base. -/
def setClassBase (base : String) : List Declaration → List Declaration
  | [] => []
  | d :: rest =>
    if d.kind = .scriptClass then { d with base := some base } :: rest
    else d :: setClassBase base rest

/-- Adds declarations; annotations that wait are dropped. -/
def Declared.add (s : Declared) (ds : List Declaration) : Declared :=
  { s with declarations := s.declarations ++ ds, pending := [] }

/-- Reads one line of code outside enum bodies. `function` is the function in whose body the line
lies. -/
def Declared.readCode (s : Declared) (function : Option String) (code : List Char) (line : Nat) :
    Declared :=
  if annotationsOnly.occursIn code then { s with pending := s.pending ++ annotations code }
  else if let some m := classNameClause.find? code then
    let base := (m.group? 2).map fun b => extendsOf b.chars line
    { s.add [{ kind := .scriptClass, name := str (m.group 1), line, indent := 0,
               base := base.map (·.target) }] with
      className := some (str (m.group 1), line)
      base := base <|> s.base }
  else if let some m := extendsClause.find? code then
    let base := extendsOf (m.group 1) line
    { s with
      declarations := setClassBase base.target s.declarations, base := some base, pending := [] }
  else if let some m := innerClassHeader.find? code then
    s.add [{ kind := .innerClass, name := str (m.group 2), line, indent := Line.indent (m.group 1),
             base := (m.group? 3).map fun b => str (trimWhile (· == '"') b.chars) }]
  else if let some m := constantDeclaration.find? code then
    s.add [{ kind := .constant, name := str (m.group 2), line, indent := Line.indent (m.group 1),
             typeHint := (m.group? 3).map (·.text), value := some (str (trim (m.group 4))),
             isStatic := true, function }]
  else if let some m := variableDeclaration.find? code then
    let annotations := s.pending ++ annotations (m.group 2)
    let exported := annotations.any (·.name.startsWith "export")
    s.add [{ kind := if exported then .export else .variable, name := str (m.group 4), line,
             indent := Line.indent (m.group 1), isStatic := (m.group? 3).isSome,
             typeHint := (m.group? 5).map (·.text),
             value := (m.group? 6).map fun v =>
               str (trim (dropEndWhile (· == ':') (trim v.chars))),
             annotations, function }]
  else if let some m := signalDeclaration.find? code then
    s.add [{ kind := .signal, name := str (m.group 2), line, indent := Line.indent (m.group 1),
             function }]
  else if let some m := enumHeader.find? code then
    let indent := Line.indent (m.group 1)
    let named := (m.group? 2).toList.map fun name =>
      ({ kind := .enum, name := name.text, line, indent } : Declaration)
    { s.add (named ++ enumValueDeclarations (m.group 3) line indent) with
      openEnum := if (m.group 3).contains '\x7d' then none else some indent }
  else { s with pending := [] }

/-- Reads one line of a script. -/
def Declared.readLine (functions : List Function) (s : Declared) (numbered : List Char × Nat) :
    Declared :=
  let (raw, line) := numbered
  match s.openEnum with
  | some indent =>
    let code := Line.code raw
    { s with
      declarations := s.declarations ++ enumValueDeclarations code line indent
      openEnum := if code.contains '\x7d' then none else some indent }
  | none =>
    let code := trimEnd (Line.code raw)
    if isAllBlank code then s
    else s.readCode (Function.enclosingBody? functions line) code line

/-- The declaration of a function. -/
def functionDeclaration (f : Function) : Declaration :=
  { kind := .function, name := f.name, line := f.line, indent := f.indent, isStatic := f.isStatic,
    typeHint := f.returnType }

/-- Everything that the lines of a script declare, in the order of the lines. -/
def declared (lines : List (List Char)) (functions : List Function) : Declared :=
  let s := (lines.zipIdx 1).foldl (Declared.readLine functions)
    { declarations := functions.map functionDeclaration }
  { s with declarations := sortByNat (·.line) s.declarations }

end Script

end GodotLint
