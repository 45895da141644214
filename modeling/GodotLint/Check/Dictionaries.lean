import GodotLint.Check.Basic
import GodotLint.Fix.Default
import GodotLint.Naming.Words

/-!
# Checks of dictionary accesses

Accesses that fail when the key is missing, and keys that look like a misspelt common key.
-/

namespace GodotLint.Check

/-! ## Missing keys -/

/-- Receivers that are usually arrays, or records whose keys are always there. -/
def safeReceivers : List String :=
  ["data", "entries", "list", "array", "arr", "items", "result", "results", "row", "rows", "args",
    "params", "matrix", "grid", "cells", "values", "keys", "buffer", "stack", "queue", "self"]

/-- Whether an access may fail: it reads by brackets, nothing on the line tests for the key, and
the receiver is not known to have it. -/
def isUnsafe (extraSafe : List String) (a : Access) : Bool :=
  a.form == .bracket && !a.isAssignment && !a.guarded &&
    !safeReceivers.contains a.receiverName && !extraSafe.contains a.receiverName

/-- The issue of an access that may fail. -/
def unsafeAccessIssue (file : String) (a : Access) : Issue :=
  { check := "dict_access", file, line := a.line, kind := "unsafe_bracket_access"
    message := a.receiver ++ "[\"" ++ a.key ++ "\"] fails at runtime when the key is missing"
    severity := .warning
    suggestion := some (getExpression a.receiver a.key) }

/-- Accesses do not fail when a key is missing. -/
def dictAccess : Check where
  id := "dict_access"
  name := "Dictionary access safety"
  category := .dataIntegrity
  threshold := { metric := "summary.unsafe" }
  run c :=
    let accesses := c.scripts.flatMap fun s => s.facts.accesses.map fun a => (s.path, a)
    let risky := accesses.filter fun (_, a) => isUnsafe c.config.safeReceivers a
    .finished
      { summary := .ofList [
          ("bracket_accesses", countOf (fun (_, a) => !a.isSafeForm) accesses),
          ("safe_accesses", countOf (fun (_, a) => a.isSafeForm) accesses),
          ("guarded", countOf (fun (_, a) => !a.isSafeForm && a.guarded) accesses),
          ("unsafe", .nat risky.length)]
        issues := risky.map fun (file, a) => unsafeAccessIssue file a }

/-! ## Misspelt keys -/

/-- The number of uses from which on a key counts as well spelt. -/
def commonUses : Nat := 3

/-- The most used of some keys, the first in alphabetical order among equals. -/
def mostUsed? (keys : List (String × Nat)) : Option (String × Nat) :=
  keys.foldl (fun best k =>
    match best with
    | none => some k
    | some b => if b.2 < k.2 then some k else some b) none

/-- The issue of a key that is used once, if a common key is one edit away. -/
def keyTypoIssue? (common : List (String × Nat)) (key : String) (sites : List Site) :
    Option Issue :=
  match sites with
  | [site] =>
    (mostUsed? (common.filter fun k => Naming.oneEditApart key.toList k.1.toList)).map
      fun (target, uses) =>
        { check := "dict_keys", file := site.file, line := site.line, kind := "possible_key_typo"
          message := "key \"" ++ key ++ "\" is used once; \"" ++ target ++ "\" is used " ++
            toString uses ++ " times"
          severity := .info
          suggestion := some ("\"" ++ target ++ "\"") }
  | _ => none

/-- Keys are not misspelt. -/
def dictKeys : Check where
  id := "dict_keys"
  name := "Dictionary key typos"
  category := .dataIntegrity
  threshold := { metric := "summary.suspicious" }
  run c :=
    let keys := c.index.dictKeys
    let common := (keys.entries.map fun (key, sites) => (key, sites.length)).filter
      fun (_, uses) => commonUses ≤ uses
    let issues := keys.entries.filterMap fun (key, sites) => keyTypoIssue? common key sites
    .finished
      { summary := .ofList [
          ("keys", .nat keys.size),
          ("common_keys", .nat common.length),
          ("suspicious", .nat issues.length)]
        issues }

end GodotLint.Check
