import GodotLint.Report.Basic

/-!
# Reports for programs

Runs and suites as JSON documents of their own, and as SARIF 2.1.0 documents.
-/

namespace GodotLint.Report

/-! ## JSON -/

/-- A member of an object, left out where there is no value. -/
def optionalMember (key : String) (value : Option String) : List (String × Json) :=
  (value.map fun v => (key, .str v)).toList

/-- An issue as a value. -/
def issueJson (i : Issue) : Json :=
  .obj ([("file", .str i.file), ("line", .nat i.line), ("type", .str i.kind),
      ("message", .str i.message), ("severity", .str i.severity.name)] ++
    optionalMember "suggestion" i.suggestion ++ optionalMember "category" i.category ++
    optionalMember "rating" (i.rating.map Rating.name) ++ [("check", .str i.check)])

/-- The issues of a run as a value. -/
def issuesJson (issues : List Issue) : Json := .arr (issues.map issueJson)

/-- A run as a document. -/
def runJson (r : Run) : Json :=
  .obj [("summary", .obj r.summary.entries), ("issues", issuesJson r.issues)]

/-- The number of issues of each severity as a value. -/
def countsJson (c : IssueCounts) : Json :=
  .obj [("error", .nat c.errors), ("warning", .nat c.warnings), ("info", .nat c.infos)]

/-- A run as a part of the document of a suite. -/
def suiteRunJson (r : Run) : Json :=
  .obj [("id", .str r.id), ("name", .str r.name), ("category", .str r.category.name),
    ("status", .str r.status.name), ("metric", .str r.threshold.metric),
    ("value", .float r.value), ("message", .str r.message), ("counts", countsJson r.counts),
    ("summary", .obj r.summary.entries), ("issues", issuesJson r.issues)]

/-- The sums over a suite as a value. -/
def totalsJson (t : Totals) : Json :=
  .obj [("checks", .nat t.checks), ("pass", .nat t.pass), ("warn", .nat t.warn),
    ("fail", .nat t.fail), ("errors", .nat t.errors), ("warnings", .nat t.warnings),
    ("info", .nat t.infos), ("suppressed", .nat t.suppressed)]

/-- A suite as a document. -/
def suiteJson (s : Suite) : Json :=
  .obj [("root", .str s.root), ("mode", .str s.mode.name),
    ("checks", .arr (s.runs.map suiteRunJson)), ("totals", totalsJson s.totals),
    ("generated_utc", .str s.generated)]

/-! ## SARIF -/

/-- The schema of the documents. -/
def sarifSchema : String :=
  "https://raw.githubusercontent.com/oasis-tcs/sarif-spec/master/Schemata/sarif-schema-2.1.0.json"

/-- The level of a severity. -/
def sarifLevel : Severity → String
  | .error => "error"
  | .warning => "warning"
  | .info => "note"

/-- A text as a message. -/
def sarifMessage (text : String) : Json := .obj [("text", .str text)]

/-- An issue as a result. Issues of a file as a whole stand on its first line. -/
def sarifResult (i : Issue) : Json :=
  let base := "[" ++ i.kind ++ "] " ++ i.message
  let text := match i.suggestion with
    | some s => base ++ " (suggestion: " ++ s ++ ")"
    | none => base
  .obj [("ruleId", .str i.check), ("level", .str (sarifLevel i.severity)),
    ("message", sarifMessage text),
    ("locations", .arr [.obj [("physicalLocation", .obj [
      ("artifactLocation", .obj [("uri", .str i.file)]),
      ("region", .obj [("startLine", .nat (max i.line 1))])])]])]

/-- A check as a rule. -/
def sarifRule (id name : String) : Json :=
  .obj [("id", .str id), ("name", .str name), ("shortDescription", sarifMessage name)]

/-- Some runs as a SARIF document. -/
def sarifJson (runs : List Run) : Json :=
  let rules : SortedMap String := .ofList (runs.map fun r => (r.id, r.name))
  .obj [("version", .str "2.1.0"), ("$schema", .str sarifSchema),
    ("runs", .arr [.obj [
      ("tool", .obj [("driver", .obj [("name", .str toolName), ("version", .str toolVersion),
        ("rules", .arr (rules.entries.map fun (id, name) => sarifRule id name))])]),
      ("results", .arr (runs.flatMap fun r => r.issues.map sarifResult))]])]

end GodotLint.Report
