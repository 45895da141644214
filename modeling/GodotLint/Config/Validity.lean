import GodotLint.Config.Basic
import GodotLint.Glob.Basic
import GodotLint.Text.Basic

/-!
# Validity of configurations

The rules that a configuration keeps before a command uses it. The first one that is broken is
reported.
-/

namespace GodotLint

/-- Why a configuration is of no use. -/
inductive ConfigFault where
  | badPattern (pattern : String) (fault : Glob.Fault)
  | noTimeout
  | noComplexityLimit
  | softAboveMax (soft max : Nat)
  | shortCycles
  | noDuplicateLines
  | emptyOverride (check : String)
  deriving DecidableEq, Repr

/-- The words for a fault. -/
def ConfigFault.message : ConfigFault → String
  | .badPattern pattern fault =>
    "invalid excluded_paths pattern " ++ Text.quotedString pattern ++ ": " ++
      Glob.faultMessage pattern fault
  | .noTimeout => "timeout_secs must be greater than zero"
  | .noComplexityLimit => "complexity thresholds must be greater than zero"
  | .softAboveMax soft max =>
    "complexity.soft_lines (" ++ toString soft ++ ") must not exceed complexity.max_lines (" ++
      toString max ++ ")"
  | .shortCycles => "cycles.max_depth must be at least 2"
  | .noDuplicateLines => "duplicates.min_lines must be greater than zero"
  | .emptyOverride check =>
    "threshold override for " ++ Text.quotedString check ++
      " sets neither fail_if_ge nor pass_if_ge"

namespace Config

/-- The fault of a file pattern. -/
def patternFault? (pattern : String) : Option ConfigFault :=
  match Glob.parse pattern.toList with
  | .ok _ => none
  | .error fault => some (.badPattern pattern fault)

/-- The fault of the limits on functions. -/
def complexityFault? (c : ComplexityLimits) : Option ConfigFault :=
  if c.maxLines = 0 ∨ c.softLines = 0 then some .noComplexityLimit
  else if c.maxLines < c.softLines then some (.softAboveMax c.softLines c.maxLines)
  else none

/-- The fault of an override that changes nothing. -/
def overrideFault? (entry : String × ThresholdOverride) : Option ConfigFault :=
  if entry.2.failIfGe.isNone && entry.2.passIfGe.isNone then some (.emptyOverride entry.1) else none

/-- The first fault of a configuration. -/
def fault? (c : Config) : Option ConfigFault :=
  c.excludedPaths.findSome? patternFault? <|>
    (if c.timeoutSecs = 0 then some .noTimeout else none) <|>
    complexityFault? c.complexity <|>
    (if c.cycleDepth < 2 then some .shortCycles else none) <|>
    (if c.duplicateLines = 0 then some .noDuplicateLines else none) <|>
    c.thresholds.entries.findSome? overrideFault?

end Config

end GodotLint
