import GodotLint.Ordering
import GodotLint.Project.DataFile

/-!
# Configuration

What a project may set. Every entry has a default, and an empty configuration is the default one.
-/

namespace GodotLint

/-- An override of the threshold of a check. -/
structure ThresholdOverride where
  failIfGe : Option Float := none
  passIfGe : Option Float := none

/-- Limits on functions and files. -/
structure ComplexityLimits where
  /-- Lines of a body above which a function is too long. -/
  maxLines : Nat := 50
  /-- Lines of a body above which a function is mentioned. -/
  softLines : Nat := 30
  maxNesting : Nat := 4
  maxFileLines : Nat := 500
  deriving DecidableEq, Repr

/-- Limits on scenes. -/
structure SceneLimits where
  maxDepth : Nat := 8
  maxNodes : Nat := 150
  deriving DecidableEq, Repr

/-- The configuration of a run. -/
structure Config where
  /-- Patterns of files that are not analysed. -/
  excludedPaths : List String := []
  /-- Names of directories that are not analysed. -/
  skipDirs : List String := ["addons"]
  /-- Seconds that one check may take. -/
  timeoutSecs : Nat := 120
  /-- Overrides by the id of a check. -/
  thresholds : SortedMap ThresholdOverride := .empty
  /-- Names that need follow no convention. -/
  namingExceptions : List String := []
  complexity : ComplexityLimits := {}
  /-- The longest chain of bases. -/
  inheritanceDepth : Nat := 5
  /-- The number of scripts that one may depend on. -/
  maxEfferent : Nat := 15
  /-- The longest cycle that is looked for. -/
  cycleDepth : Nat := 10
  /-- The number of lines from which on equal code is reported. -/
  duplicateLines : Nat := 6
  /-- Receivers whose keys are always there. -/
  safeReceivers : List String := []
  data : DataNames := {}
  /-- Fields of the shared state; the built-in ones if there are none. -/
  stateFields : List String := []
  /-- The number of uses from which on a number deserves a name. -/
  magicOccurrences : Nat := 3
  scenes : SceneLimits := {}

end GodotLint
