import GodotLint.Check.Basic
import GodotLint.Naming.Words

/-!
# Checks of use

Functions, members and classes against the identifiers that occur in the project: what is private
and used elsewhere, what is public and used at home only, and what is not used at all. What the
engine calls, a scene connects to, or a string names counts as used.
-/

namespace GodotLint.Check

open Text

/-- Whether something other than code may call a function: the engine, a scene or a string. -/
def isCalledByName (ix : Index) (name : String) : Bool :=
  Naming.lifecycleHooks.contains name || ix.sceneMethods.contains name ||
    ix.stringValues.contains name

/-! ## Visibility -/

/-- What a function of a class is to other files. -/
inductive Visibility where
  /-- Private, and used in the given other files. -/
  | leaked (files : List String)
  /-- Private, and used at home only. -/
  | hidden
  /-- Public, and used elsewhere or called by name. -/
  | used
  /-- Public, and used at home only. -/
  | local
  deriving DecidableEq, Repr

/-- The other files that use a function without defining one of its name. -/
def foreignUsers (ix : Index) (name file : String) : List String :=
  let homes := ((ix.functions.get? name).getD []).map (·.file)
  (ix.otherFiles name file).filter (!homes.contains ·)

/-- What a function in a file is to other files. -/
def visibility (ix : Index) (file : String) (f : Function) : Visibility :=
  if f.isPrivate then
    match foreignUsers ix f.name file with
    | [] => .hidden
    | files => .leaked files
  else if isCalledByName ix f.name || !(ix.otherFiles f.name file).isEmpty then .used
  else .local

/-- The issue of a function whose name does not tell what it is to other files. -/
def visibilityIssue? (file : String) (f : Function) : Visibility → Option Issue
  | .leaked files =>
    let more := if files.length ≤ 1 then ""
      else " and " ++ toString (files.length - 1) ++ " other file(s)"
    some
      { check := "method_visibility", file, line := f.line, kind := "private_called_externally"
        message := "private method " ++ f.name ++ "() is used from " ++ files.headD "" ++ more
        severity := .warning
        suggestion := some ("rename to " ++ str (f.name.toList.dropWhile (· == '_'))) }
  | .local =>
    some
      { check := "method_visibility", file, line := f.line, kind := "public_unused_externally"
        message := "public method " ++ f.name ++ "() is never referenced outside " ++ file
        severity := .info
        suggestion := some ("rename to _" ++ f.name) }
  | _ => none

/-- The functions of classes outside the tests that the engine does not call, each with its file
and what it is to others. -/
def visibleFunctions (c : Context) : List (String × Function × Visibility) :=
  (c.scripts.filter (!·.source.isTest)).flatMap fun s =>
    (s.facts.functions.filter fun f =>
      f.indent = 0 && !Naming.lifecycleHooks.contains f.name).map fun f =>
        (s.path, f, visibility c.index s.path f)

/-- The names of functions tell whether other files use them. -/
def methodVisibility : Check where
  id := "method_visibility"
  name := "Method visibility"
  category := .codeStructure
  inputs := [.scripts, .scenes]
  threshold := { metric := "summary.private_called_externally" }
  run c :=
    let functions := visibleFunctions c
    let issues := functions.filterMap fun (file, f, v) => visibilityIssue? file f v
    .finished
      { summary := .ofList [
          ("public", countOf (fun (_, f, _) => !f.isPrivate) functions),
          ("private", countOf (fun (_, f, _) => f.isPrivate) functions),
          ("private_called_externally", countKind "private_called_externally" issues),
          ("public_internal_only", countKind "public_unused_externally" issues)]
        issues }

/-! ## Dead code -/

/-- How often a name occurs besides its declaration in a file. -/
def usesOf (ix : Index) (name file : String) : Nat :=
  (ix.occurrencesIn name file - 1) +
    sumOf (·.2) ((ix.occurrences name).filter (·.1 != file))

/-- The issue of a private function that nothing calls. -/
def deadFunctionIssue? (ix : Index) (file : String) (f : Function) : Option Issue :=
  if !f.isPrivate || isCalledByName ix f.name || usesOf ix f.name file != 0 then none
  else some
    { check := "dead_code", file, line := f.line, kind := "unused_private_function"
      message := "private function " ++ f.name ++ "() is never called"
      severity := .warning
      suggestion := some "delete it" }

/-- The issue of a private constant or variable that nothing reads or writes. -/
def deadMemberIssue? (ix : Index) (file : String) (d : Declaration) : Option Issue :=
  let what? := match d.kind with
    | .constant => some "constant"
    | .variable => some "variable"
    | _ => none
  match what? with
  | none => none
  | some what =>
    if !d.isPrivate || !d.isMember || d.exportAnnotation?.isSome ||
        ix.stringValues.contains d.name || usesOf ix d.name file != 0 then none
    else some
      { check := "dead_code", file, line := d.line, kind := "unused_private_member"
        message := "private " ++ what ++ " '" ++ d.name ++ "' is never read or written"
        severity := .info }

/-- The issue of a class that no other script names and no singleton stands for. -/
def deadClassIssue? (ix : Index) (entry : ClassEntry) : Option Issue :=
  if (ix.autoload? entry.name).isSome || ix.autoloadScripts.contains entry.file ||
      ix.stringValues.contains entry.name ||
      !(ix.otherFiles entry.name entry.file).isEmpty then none
  else some
    { check := "dead_code", file := entry.file, line := entry.line, kind := "unused_class"
      message := "class_name " ++ entry.name ++ " is never referenced by another script"
      severity := .info }

/-- Private functions, private members and classes are used. -/
def deadCode : Check where
  id := "dead_code"
  name := "Dead code"
  category := .maintenance
  inputs := [.scripts, .scenes]
  threshold := { metric := "summary.unused_functions" }
  run c :=
    let ix := c.index
    let issues :=
      (c.scripts.flatMap fun s =>
        s.facts.functions.filterMap (deadFunctionIssue? ix s.path) ++
          s.facts.declarations.filterMap (deadMemberIssue? ix s.path)) ++
      ix.classes.values.filterMap (deadClassIssue? ix)
    .finished
      { summary := .ofList [
          ("unused_functions", countKind "unused_private_function" issues),
          ("unused_members", countKind "unused_private_member" issues),
          ("unused_classes", countKind "unused_class" issues)]
        issues }

end GodotLint.Check
