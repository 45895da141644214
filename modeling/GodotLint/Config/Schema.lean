import GodotLint.Config.Basic

/-!
# The written form of configurations

Which keys a configuration has, how the value of each is written and what it sets. The readers of
the written forms share this table, and so does the writer.
-/

namespace GodotLint

/-- The value of a key. -/
inductive Setting where
  /-- A natural number; `type` is what messages call its range. -/
  | natural (type : String) (get : Config → Nat) (set : Nat → Config → Config)
  /-- A list of texts. -/
  | texts (get : Config → List String) (set : List String → Config → Config)
  /-- The overrides of thresholds. -/
  | overrides
  /-- A group of keys; `type` is what messages call it. -/
  | group (type : String) (entries : List (String × Setting))

namespace Config

/-- What messages call a configuration. -/
def typeName : String := "Config"

/-- The keys of a configuration. -/
def schema : List (String × Setting) :=
  [("excluded_paths", .texts (·.excludedPaths) fun x c => { c with excludedPaths := x }),
   ("skip_dirs", .texts (·.skipDirs) fun x c => { c with skipDirs := x }),
   ("timeout_secs", .natural "u64" (·.timeoutSecs) fun x c => { c with timeoutSecs := x }),
   ("thresholds", .overrides),
   ("naming", .group "NamingConfig" [
     ("extra_exceptions", .texts (·.namingExceptions)
       fun x c => { c with namingExceptions := x })]),
   ("complexity", .group "ComplexityConfig" [
     ("max_lines", .natural "usize" (·.complexity.maxLines)
       fun x c => { c with complexity.maxLines := x }),
     ("soft_lines", .natural "usize" (·.complexity.softLines)
       fun x c => { c with complexity.softLines := x }),
     ("max_nesting", .natural "usize" (·.complexity.maxNesting)
       fun x c => { c with complexity.maxNesting := x }),
     ("max_file_lines", .natural "usize" (·.complexity.maxFileLines)
       fun x c => { c with complexity.maxFileLines := x })]),
   ("inheritance", .group "InheritanceConfig" [
     ("max_depth", .natural "usize" (·.inheritanceDepth)
       fun x c => { c with inheritanceDepth := x })]),
   ("coupling", .group "CouplingConfig" [
     ("max_efferent", .natural "usize" (·.maxEfferent) fun x c => { c with maxEfferent := x })]),
   ("cycles", .group "CyclesConfig" [
     ("max_depth", .natural "usize" (·.cycleDepth) fun x c => { c with cycleDepth := x })]),
   ("duplicates", .group "DuplicatesConfig" [
     ("min_lines", .natural "usize" (·.duplicateLines) fun x c => { c with duplicateLines := x })]),
   ("dict_access", .group "DictAccessConfig" [
     ("safe_names", .texts (·.safeReceivers) fun x c => { c with safeReceivers := x })]),
   ("json", .group "JsonConfig" [
     ("entry_points", .texts (·.data.entryPoints) fun x c => { c with data.entryPoints := x }),
     ("reference_fields", .texts (·.data.referenceFields)
       fun x c => { c with data.referenceFields := x }),
     ("id_arrays", .texts (·.data.idArrays) fun x c => { c with data.idArrays := x })]),
   ("state", .group "StateConfig" [
     ("fields", .texts (·.stateFields) fun x c => { c with stateFields := x })]),
   ("magic_numbers", .group "MagicNumbersConfig" [
     ("min_occurrences", .natural "usize" (·.magicOccurrences)
       fun x c => { c with magicOccurrences := x })]),
   ("scenes", .group "SceneConfig" [
     ("max_depth", .natural "usize" (·.scenes.maxDepth) fun x c => { c with scenes.maxDepth := x }),
     ("max_nodes", .natural "usize" (·.scenes.maxNodes)
       fun x c => { c with scenes.maxNodes := x })])]

end Config

/-- The keys of an override. -/
def ThresholdOverride.schema :
    List (String × (ThresholdOverride → Option Float) ×
      (Option Float → ThresholdOverride → ThresholdOverride)) :=
  [("fail_if_ge", (·.failIfGe), fun x o => { o with failIfGe := x }),
   ("pass_if_ge", (·.passIfGe), fun x o => { o with passIfGe := x })]

/-- What messages call an override. -/
def ThresholdOverride.typeName : String := "ThresholdOverride"

end GodotLint
