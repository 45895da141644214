import GodotLint.Report.Markdown
import GodotLint.Report.Structured
import GodotLint.Report.Terminal

/-!
# Reports in every form
-/

namespace GodotLint

/-- The report of a run. Only reports for a terminal have colours. -/
def Run.render (r : Run) (colours : Bool) : Format → String
  | .text => Report.terminalRun colours r
  | .json => (Report.runJson r).pretty
  | .markdown => Report.markdownRun r
  | .sarif => (Report.sarifJson [r]).pretty

/-- The report of a suite. Only reports for a terminal have colours. -/
def Suite.render (s : Suite) (colours : Bool) : Format → String
  | .text => Report.terminalSuite colours s
  | .json => (Report.suiteJson s).pretty
  | .markdown => Report.markdownSuite s
  | .sarif => (Report.sarifJson s.runs).pretty

end GodotLint
