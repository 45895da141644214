import GodotLint.Config.Schema

/-!
# Configurations as JSON documents

A configuration is written as an object with all its keys. It is read from an object with some of
them, or from an array with the first few of their values.
-/

namespace GodotLint

/-! ## Writing -/

/-- A bound or nothing. -/
def boundJson (x : Option Float) : Json := (x.map Json.float).getD .null

/-- An override as a value. -/
def ThresholdOverride.toJson (o : ThresholdOverride) : Json :=
  .obj (ThresholdOverride.schema.map fun (key, get, _) => (key, boundJson (get o)))

mutual

/-- A setting of a configuration as a value. -/
def Setting.toJson (c : Config) : Setting → Json
  | .natural _ get _ => .nat (get c)
  | .texts get _ => .strs (get c)
  | .overrides => .ofMap ThresholdOverride.toJson c.thresholds
  | .group _ entries => .obj (Setting.membersJson c entries)

/-- The settings of a group as members. -/
def Setting.membersJson (c : Config) : List (String × Setting) → List (String × Json)
  | [] => []
  | (key, s) :: rest => (key, s.toJson c) :: Setting.membersJson c rest

end

/-- A configuration as a value. -/
def Config.toJson (c : Config) : Json := .obj (Setting.membersJson c Config.schema)

/-! ## Reading -/

namespace Json

/-- A natural number. -/
def nat? : Json → Option Nat
  | .num (.whole n) => if 0 ≤ n then some n.toNat else none
  | _ => none

/-- A list of strings. -/
def strs? : Json → Option (List String)
  | .arr items => items.mapM str?
  | _ => none

/-- A number, or nothing written as such. -/
def bound? : Json → Option (Option Float)
  | .null => some none
  | .num n => some (some n.toFloat)
  | _ => none

/-- The values of some keys, by their names in an object or by their place in an array. -/
def fields? (keys : List String) : Json → Option (List (String × Json))
  | .obj members => some (members.filter fun (key, _) => keys.contains key)
  | .arr items => if keys.length < items.length then none else some (keys.zip items)
  | _ => none

end Json

/-- An override from a value. -/
def ThresholdOverride.ofJson? (v : Json) : Option ThresholdOverride := do
  let fields ← v.fields? (ThresholdOverride.schema.map (·.1))
  fields.foldlM (fun o (key, value) => do
    let (_, set) ← ThresholdOverride.schema.lookup key
    return set (← value.bound?) o) {}

/-- The overrides from a value. -/
def overridesOfJson? : Json → Option (SortedMap ThresholdOverride)
  | .obj members => do
    return .ofList (← members.mapM fun (key, v) => do return (key, ← ThresholdOverride.ofJson? v))
  | _ => none

mutual

/-- Reads a setting from a value. -/
def Setting.read? (v : Json) (c : Config) : Setting → Option Config
  | .natural _ _ set => v.nat?.map (set · c)
  | .texts _ set => v.strs?.map (set · c)
  | .overrides => (overridesOfJson? v).map fun thresholds => { c with thresholds }
  | .group _ entries =>
    (v.fields? (entries.map (·.1))).bind fun fields => Setting.readMembers? fields c entries

/-- Reads the settings of a group from the values of their keys. -/
def Setting.readMembers? (fields : List (String × Json)) (c : Config) :
    List (String × Setting) → Option Config
  | [] => some c
  | (key, s) :: rest =>
    match fields.lookup key with
    | some v => (s.read? v c).bind fun c => Setting.readMembers? fields c rest
    | none => Setting.readMembers? fields c rest

end

/-- A configuration from a value. -/
def Config.ofJson? (v : Json) : Option Config :=
  Setting.read? v {} (.group Config.typeName Config.schema)

end GodotLint
