import GodotLint.Project.Basic

/-!
# Checks

A check looks at a project and reports issues and a summary. One number of the summary, its
metric, is held against a threshold and gives the status of the check.
-/

namespace GodotLint

/-! ## Issues -/

/-- How bad an issue is. -/
inductive Severity where
  | error
  | warning
  | info
  deriving DecidableEq, Repr

namespace Severity

/-- The name of the severity in reports. -/
def name : Severity → String
  | .error => "error"
  | .warning => "warning"
  | .info => "info"

/-- Every severity, the worst first. -/
def all : List Severity := [.error, .warning, .info]

end Severity

/-- How sure a check is that an issue matters. -/
inductive Rating where
  | high
  | medium
  | low
  deriving DecidableEq, Repr

namespace Rating

/-- The name of the rating in reports. -/
def name : Rating → String
  | .high => "high"
  | .medium => "medium"
  | .low => "low"

/-- Every rating. -/
def all : List Rating := [.high, .medium, .low]

/-- The severity of an issue with the rating. -/
def severity : Rating → Severity
  | .high => .warning
  | .medium => .warning
  | .low => .info

end Rating

/-- A finding. -/
structure Issue where
  /-- The id of the check that reports it. -/
  check : String
  file : String
  /-- The line, zero for the file as a whole. -/
  line : Nat
  /-- What kind of finding it is. -/
  kind : String
  message : String
  severity : Severity
  suggestion : Option String := none
  /-- A group within the check. -/
  category : Option String := none
  rating : Option Rating := none
  deriving DecidableEq, Repr

namespace Issue

/-- An issue whose severity follows from its rating. -/
def rated (check file : String) (line : Nat) (kind message : String) (rating : Rating)
    (suggestion : Option String := none) : Issue :=
  { check, file, line, kind, message, severity := rating.severity, suggestion
    rating := some rating }

/-- Order by file, line, kind and message. -/
def compare (a b : Issue) : Ordering :=
  thenBy (Ord.compare a.file b.file) <|
    thenBy (Ord.compare a.line b.line) <|
      thenBy (Ord.compare a.kind b.kind) (Ord.compare a.message b.message)

end Issue

/-- A summary value by key. -/
abbrev Summary := SortedMap Json

/-- The number of issues of each severity. -/
def severityCounts (issues : List Issue) : Json :=
  .counts (.ofList (Severity.all.map fun s => (s.name, issues.countP (·.severity = s))))

/-- The number of issues of each rating. -/
def ratingCounts (issues : List Issue) : Json :=
  .counts (.ofList (Rating.all.map fun r => (r.name, issues.countP (·.rating = some r))))

/-- How often each of the given names occurs. -/
def tally (names : List String) : SortedMap Nat := names.foldl (·.count ·) .empty

/-- The number of issues of each kind. -/
def kindCounts (issues : List Issue) : Json := .counts (tally (issues.map (·.kind)))

/-! ## Thresholds -/

/-- The outcome of a check. -/
inductive Status where
  | pass
  | warn
  | fail
  deriving DecidableEq, Repr

/-- The name of the status in reports. -/
def Status.name : Status → String
  | .pass => "pass"
  | .warn => "warn"
  | .fail => "fail"

/-- What the metric of a check is held against. -/
structure Threshold where
  /-- Where the metric stands in the summary, as in `summary.by_priority.high`. -/
  metric : String
  /-- The value from which on the check fails. -/
  failIfGe : Option Float := none
  /-- The value from which on the check passes; below it, it warns. -/
  passIfGe : Option Float := none

namespace Threshold

/-- The status for a value of the metric. Without bounds, any value above zero warns. -/
def status (t : Threshold) (value : Float) : Status :=
  if t.failIfGe.any (· ≤ value) then .fail
  else
    match t.passIfGe with
    | some bound => if bound ≤ value then .pass else .warn
    | none => if 0.0 < value then .warn else .pass

/-- The threshold with the bounds that an override sets. -/
def override (t : Threshold) (o : ThresholdOverride) : Threshold :=
  { t with failIfGe := o.failIfGe <|> t.failIfGe, passIfGe := o.passIfGe <|> t.passIfGe }

end Threshold

/-- The value at the end of a path of keys. -/
def valueAt (v : Json) : List String → Option Json
  | [] => some v
  | key :: rest => (v.member? key).bind (valueAt · rest)

/-- A summary value as a number: an array counts its items, and what is no number counts zero. -/
def metricNumber : Json → Float
  | .num n => n.toFloat
  | .arr items => Float.ofNat items.length
  | .bool true => 1.0
  | _ => 0.0

/-- The path of keys that a metric names. -/
def metricPath (metric : String) : List String :=
  let path := metric.toList
  let path := (Text.afterPrefix? "summary.".toList path).getD path
  (Text.splitAt '.' path).map str

/-- The value of a metric. Where the summary has no count of issues, the given one is taken. -/
def metricValue (summary : Summary) (issueCount : Nat) (metric : String) : Float :=
  let path := metricPath metric
  if path == ["issues"] && !summary.contains "issues" then Float.ofNat issueCount
  else ((valueAt (.obj summary.entries) path).map metricNumber).getD 0.0

/-! ## Checks -/

/-- The concern of a check. -/
inductive Category where
  | naming
  | codeStructure
  | dataIntegrity
  | engine
  | performance
  | architecture
  | maintenance
  deriving DecidableEq, Repr

/-- The name of the category in reports. -/
def Category.name : Category → String
  | .naming => "naming"
  | .codeStructure => "structure"
  | .dataIntegrity => "data_integrity"
  | .engine => "godot"
  | .performance => "performance"
  | .architecture => "architecture"
  | .maintenance => "maintenance"

/-- What a user may ask of a run. -/
structure Options where
  /-- Apply more rules, or lower limits. -/
  strict : Bool := false
  /-- Report only the issues of this file. -/
  file : Option String := none
  /-- A limit in place of the configured one. -/
  threshold : Option Nat := none
  /-- The layer to which rules about layers are restricted. -/
  layer : Option Layer := none

/-- What a check looks at. -/
structure Context where
  project : Project
  options : Options := {}

namespace Context

/-- The configuration of the project. -/
def config (c : Context) : Config := c.project.config

/-- The scripts of the project. -/
def scripts (c : Context) : List Script := c.project.scripts

/-- The index of the project. -/
def index (c : Context) : Index := c.project.index

/-- The limit that the user asks for, or the given one. -/
def limit (c : Context) (configured : Nat) : Nat := c.options.threshold.getD configured

end Context

/-- What a check reports. -/
structure Findings where
  summary : Summary
  issues : List Issue := []

/-- How the body of a check ends. -/
inductive Outcome where
  | finished (findings : Findings)
  /-- It gave up, for the given reasons, the last one being the root of the others. -/
  | gaveUp (reasons : List String)
  /-- It broke down. -/
  | brokeDown (message : String)

/-- A check. -/
structure Check where
  /-- The name by which it is called and configured. -/
  id : String
  /-- The name in reports. -/
  name : String
  category : Category
  /-- The inputs whose faults it reports. -/
  inputs : List Input := [.scripts]
  /-- It is part of quick runs. -/
  isQuick : Bool := false
  threshold : Threshold
  /-- Milliseconds that the body waits before it starts. -/
  delay : Nat := 0
  run : Context → Outcome

namespace Check

/-- The number of elements that satisfy `p`, as a summary value. -/
def countOf (p : α → Bool) (xs : List α) : Json := .nat (xs.countP p)

/-- The number of issues of one kind, as a summary value. -/
def countKind (kind : String) (issues : List Issue) : Json := countOf (·.kind == kind) issues

/-- A share of a whole, rounded to `1 / scale`; zero of nothing. -/
def share (part whole : Nat) (scale : Float) : Float :=
  if whole = 0 then 0.0
  else (Float.ofNat part / Float.ofNat whole * scale).round / scale

end Check

end GodotLint
