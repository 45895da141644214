import GodotLint.Check.Registry
import GodotLint.Run.Basic

/-!
# Running a suite

A suite runs every check, or the quick ones, and adds up how they ended.
-/

namespace GodotLint

/-- The checks that a suite runs. -/
inductive SuiteMode where
  | quick
  | full
  deriving DecidableEq, Repr

namespace SuiteMode

/-- The name of the mode. -/
def name : SuiteMode → String
  | .quick => "quick"
  | .full => "full"

/-- The checks of the mode. -/
def checks : SuiteMode → List Check
  | .quick => Check.quick
  | .full => Check.all

end SuiteMode

/-- The number of issues of each severity. -/
structure IssueCounts where
  errors : Nat
  warnings : Nat
  infos : Nat
  deriving DecidableEq, Repr

/-- The number of issues of each severity in a run. -/
def Run.counts (r : Run) : IssueCounts := ⟨r.count .error, r.count .warning, r.count .info⟩

namespace Run

/-- The value of the metric in words, with the bound that decides. -/
def describe (r : Run) : String :=
  let number (x : Float) : String := str (Decimal.compact x)
  let base := r.threshold.metric ++ " = " ++ number r.value
  match r.threshold.failIfGe, r.threshold.passIfGe with
  | some bound, _ => base ++ " (fails at " ++ number bound ++ ")"
  | none, some bound => base ++ " (passes at " ++ number bound ++ ")"
  | none, none => base

/-- How the check ended in words: the failure, or the value of the metric. -/
def message (r : Run) : String :=
  match r.failure with
  | some failure => shorten failure
  | none => r.describe

end Run

/-- The sums over a suite. -/
structure Totals where
  checks : Nat
  pass : Nat
  warn : Nat
  fail : Nat
  errors : Nat
  warnings : Nat
  infos : Nat
  suppressed : Nat
  deriving DecidableEq, Repr

/-- The runs of a suite. -/
structure Suite where
  /-- The directory of the project. -/
  root : String
  mode : SuiteMode
  runs : List Run
  /-- When the suite was run. -/
  generated : String

namespace Suite

/-- The sums over the runs. -/
def totals (s : Suite) : Totals where
  checks := s.runs.length
  pass := s.runs.countP (·.status = .pass)
  warn := s.runs.countP (·.status = .warn)
  fail := s.runs.countP (·.status = .fail)
  errors := sumOf (·.counts.errors) s.runs
  warnings := sumOf (·.counts.warnings) s.runs
  infos := sumOf (·.counts.infos) s.runs
  suppressed := sumOf (·.suppressed.length) s.runs

/-- No check failed. -/
def passed (s : Suite) : Bool := s.totals.fail = 0

/-- The exit code of the program: failures count only where they are to break a build. -/
def exitCode (s : Suite) (ci : Bool) : Nat := if ci && !s.passed then 1 else 0

/-- Runs a suite. -/
def run (p : Project) (mode : SuiteMode) (strict : Bool) (timeoutMillis : Nat)
    (generated : String) : Suite :=
  let suppressions := Run.suppressionsOf p
  { root := p.root, mode, generated
    runs := mode.checks.map fun check =>
      Run.ofCheck check timeoutMillis suppressions { project := p, options := { strict } } }

end Suite

end GodotLint
