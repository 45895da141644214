import GodotLint.Run.Suppression

/-!
# Running a check

A run takes the findings of a check, adds an issue for each input that could not be read, keeps the
file that the user asked for, takes out what is suppressed, and sorts the rest. A check that gives
up, breaks down or takes too long fails, with one issue that says so.
-/

namespace GodotLint

/-- The outcome of one check. -/
structure Run where
  id : String
  name : String
  category : Category
  /-- The threshold with the configured bounds. -/
  threshold : Threshold
  summary : Summary
  issues : List Issue
  suppressed : List Issue
  /-- Why the check has no findings. -/
  failure : Option String := none

namespace Run

/-- The value of the metric. -/
def value (r : Run) : Float := metricValue r.summary r.issues.length r.threshold.metric

/-- The status: a failure fails, and otherwise the metric decides. -/
def status (r : Run) : Status :=
  if r.failure.isSome then .fail else r.threshold.status r.value

/-- The number of issues of a severity. -/
def count (r : Run) (s : Severity) : Nat := r.issues.countP (·.severity = s)

/-! ## The body of a check -/

/-- How long the message of a failure may be in an issue. -/
def maxFailureLength : Nat := 200

/-- The beginning of a message. -/
def shorten (message : String) : String := str (message.toList.take maxFailureLength)

/-- Runs the body of a check: its findings, or why there are none. A body that waits as long as it
may, or longer, is given up; where it may take no time at all, every body is. -/
def execute (check : Check) (timeoutMillis : Nat) (c : Context) : Except String Findings :=
  if timeoutMillis ≤ check.delay then
    .error ("check timed out after " ++ toString (timeoutMillis / 1000) ++ "s")
  else
    match check.run c with
    | .finished findings => .ok findings
    | .gaveUp reasons => .error (joinWith ": " reasons)
    | .brokeDown message => .error ("check panicked: " ++ message)

/-- The issue of a check that failed. -/
def failureIssue (id message : String) : Issue :=
  { check := id, file := "", line := 0, kind := "check_error", message := shorten message
    severity := .error }

/-- The issue of an input that could not be read. -/
def inputIssue (id : String) (f : FileFault) : Issue :=
  { check := id, file := f.file, line := 0, kind := "input_error"
    message := f.fault.kind ++ ": " ++ f.fault.message
    severity := .error }

/-- The issues of the inputs that a check looks at. -/
def inputIssues (check : Check) (p : Project) : List Issue :=
  (p.faults.filter fun f => check.inputs.contains f.input).map (inputIssue check.id)

/-- The issue of a file that the user asked for and that is not there. -/
def missingFileIssue (id file : String) : Issue :=
  { check := id, file, line := 0, kind := "input_error"
    message := "missing_file: file not found: " ++ file
    severity := .error }

/-- Keeps the issues of the file that the user asked for. -/
def restrict (id : String) (p : Project) (file : Option String) (issues : List Issue) :
    List Issue :=
  match file with
  | none => issues
  | some file =>
    let file := Project.relativize p.root file
    issues.filter (·.file == file) ++
      if p.hasFile file then [] else [missingFileIssue id file]

/-- The order of issues in a run. -/
def issueLe (a b : Issue) : Bool := (a.compare b).isLE

/-- The threshold of a check with the configured bounds. -/
def thresholdOf (check : Check) (config : Config) : Threshold :=
  match config.thresholds.get? check.id with
  | some o => check.threshold.override o
  | none => check.threshold

/-- Runs a check. -/
def ofCheck (check : Check) (timeoutMillis : Nat) (suppressions : Suppressions) (c : Context) :
    Run :=
  let (summary, issues, failure) : Summary × List Issue × Option String :=
    match execute check timeoutMillis c with
    | .ok findings => (findings.summary, findings.issues, none)
    | .error message => (.empty, [failureIssue check.id message], some message)
  let issues :=
    restrict check.id c.project c.options.file (issues ++ inputIssues check c.project)
  let (kept, suppressed) := suppressions.split issues
  let kept := dropRepeats (stableSort issueLe kept)
  { id := check.id, name := check.name, category := check.category
    threshold := thresholdOf check c.config
    summary := (summary.insertIfNew "issues" (.nat kept.length)).insert "suppressed"
      (.nat suppressed.length)
    issues := kept, suppressed, failure }

/-- The directives of the scripts of a project. -/
def suppressionsOf (p : Project) : Suppressions := .ofSources (p.scripts.map (·.source))

/-- Runs one check alone. -/
def single (check : Check) (timeoutMillis : Nat) (c : Context) : Run :=
  ofCheck check timeoutMillis (suppressionsOf c.project) c

end Run

end GodotLint
