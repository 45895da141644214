import GodotLint.Check.Basic
import GodotLint.Naming.Words

/-!
# Checks of names

Members, functions, classes and signals follow a style each, and a class is named after its file.
A suggested name is in the style that is asked for.
-/

namespace GodotLint.Check

open Naming

/-! ## Styles -/

/-- The style of a name. -/
inductive Style where
  | snake
  | screaming
  | pascal
  deriving DecidableEq, Repr

namespace Style

/-- How the style is called. -/
def name : Style → String
  | .snake => "snake_case"
  | .screaming => "SCREAMING_SNAKE_CASE"
  | .pascal => "PascalCase"

/-- Whether a name is in the style. -/
def holds : Style → List Char → Bool
  | .snake => isSnakeCase
  | .screaming => isScreamingCase
  | .pascal => isPascalCase

/-- A name put into the style. -/
def apply : Style → List Char → List Char
  | .snake => toSnakeCase
  | .screaming => toScreamingCase
  | .pascal => toPascalCase

end Style

/-- The style of what a declaration declares. -/
def styleOf : DeclarationKind → Style
  | .function => .snake
  | .variable => .snake
  | .export => .snake
  | .signal => .snake
  | .constant => .screaming
  | .enumValue => .screaming
  | .scriptClass => .pascal
  | .innerClass => .pascal
  | .enum => .pascal

/-- The kind of issue that a badly named declaration gives. -/
def namingIssueKind : DeclarationKind → String
  | .function => "function_naming"
  | .variable => "variable_naming"
  | .export => "variable_naming"
  | .signal => "signal_naming"
  | .constant => "constant_naming"
  | .enumValue => "enum_value_naming"
  | .scriptClass => "class_naming"
  | .innerClass => "class_naming"
  | .enum => "class_naming"

open Pattern in
/-- A value that loads a resource. -/
def loadedValue : Pattern := .atStart ++ word ["preload", "load"] ++ blanks ++ .char '('

/-- A constant that loads a script may be named like a class. -/
def isClassAlias (d : Declaration) : Bool :=
  d.value.any fun v => loadedValue.occursIn (Text.trim v.toList)

/-- Whether the name of a declaration is accepted. -/
def isWellNamed (exceptions : List String) (d : Declaration) : Bool :=
  let name := d.name.toList
  shortNames.contains d.name || exceptions.contains d.name || (styleOf d.kind).holds name ||
    (d.kind = .function && lifecycleHooks.contains d.name) ||
    (d.kind = .constant && isClassAlias d && isPascalCase name)

/-- The issue of a badly named declaration. -/
def namingIssue (file : String) (d : Declaration) : Issue :=
  let style := styleOf d.kind
  { check := "naming", file, line := d.line, kind := namingIssueKind d.kind
    message := d.kind.name ++ " '" ++ d.name ++ "' should be " ++ style.name
    severity := .warning
    suggestion := some (str (style.apply d.name.toList)) }

/-- Members and functions with their scripts; locals have no style. -/
def styledDeclarations (c : Context) : List (String × Declaration) :=
  c.scripts.flatMap fun s =>
    (s.facts.declarations.filter (·.isMember)).map fun d => (s.path, d)

/-- Names follow the styles. -/
def naming : Check where
  id := "naming"
  name := "Naming conventions"
  category := .naming
  isQuick := true
  threshold := { metric := "summary.issues" }
  run c :=
    let declarations := styledDeclarations c
    let issues := declarations.filterMap fun (file, d) =>
      if isWellNamed c.config.namingExceptions d then none else some (namingIssue file d)
    .finished
      { summary := .ofList
          [("declarations", .nat declarations.length), ("by_type", kindCounts issues)]
        issues }

/-! ## Classes and files -/

/-- The issue of a script whose class has another name than its file, or that has functions to call
without an instance but no class. -/
def classNameIssue? (strict : Bool) (s : Script) : Option Issue :=
  let expected := str (classNameOfStem s.source.stem)
  let suggestion := some ("class_name " ++ expected)
  match s.facts.className with
  | some (name, line) =>
    if name == expected then none
    else some
      { check := "class_names", file := s.path, line, kind := "class_name_mismatch"
        message := "class_name '" ++ name ++ "' does not match file name (expected '" ++
          expected ++ "')"
        severity := .info, suggestion }
  | none =>
    if strict && s.facts.hasStaticFunctions && s.source.layer != .sim then some
      { check := "class_names", file := s.path, line := 1, kind := "missing_class_name"
        message := "script with static functions has no class_name"
        severity := .info, suggestion }
    else none

/-- Every two elements, the earlier one first. -/
def pairs : List α → List (α × α)
  | [] => []
  | x :: rest => rest.map (x, ·) ++ pairs rest

/-- Every two sites that declare the same class. -/
def duplicateClassPairs (ix : Index) : List (String × Site × Site) :=
  ix.duplicateClasses.entries.flatMap fun (name, sites) => (pairs sites).map fun p => (name, p)

/-- The issue of a class that an earlier site declares. -/
def duplicateClassIssue (pair : String × Site × Site) : Issue :=
  let (name, first, second) := pair
  { check := "class_names", file := second.file, line := second.line
    kind := "duplicate_class_name"
    message := "class_name '" ++ name ++ "' is also declared in " ++ first.file ++ ":" ++
      toString first.line
    severity := .error }

/-- Classes are named after their files, and no two have the same name. -/
def classNames : Check where
  id := "class_names"
  name := "Class names"
  category := .naming
  isQuick := true
  threshold := { metric := "summary.duplicates", failIfGe := some 1.0 }
  run c :=
    let named := c.scripts.filterMap (classNameIssue? c.options.strict)
    let duplicates := duplicateClassPairs c.index
    .finished
      { summary := .ofList [
          ("declared", countOf (·.facts.className.isSome) c.scripts),
          ("mismatches", countKind "class_name_mismatch" named),
          ("duplicates", .nat duplicates.length),
          ("duplicate_pairs", .arr (duplicates.map fun (_, first, second) =>
            .strs [first.file, second.file]))]
        issues := named ++ duplicates.map duplicateClassIssue }

end GodotLint.Check
