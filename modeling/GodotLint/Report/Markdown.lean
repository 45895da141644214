import GodotLint.Report.Basic

/-!
# Reports in Markdown
-/

namespace GodotLint.Report

/-- The number of issues of one check that the report of a suite lists. -/
def maxListed : Nat := 25

/-- A text in a cell of a table. -/
def cell (s : String) : String := str (Text.replaceChar '|' ['\\', '|'] s.toList)

/-- The place of an issue. -/
def placeCode (i : Issue) : String :=
  if i.line = 0 then "\x60" ++ i.file ++ "\x60"
  else "\x60" ++ i.file ++ ":" ++ toString i.line ++ "\x60"

/-- A status with its mark. -/
def statusBadge : Status → String
  | .pass => "✅ pass"
  | .warn => "⚠️ warn"
  | .fail => "❌ fail"

/-- An issue as an item of a list. -/
def issueItem (i : Issue) : String :=
  line ("- [ ] " ++ placeCode i ++ " **" ++ i.kind ++ "**: " ++ i.message ++
    match i.suggestion with
    | some s => " _(" ++ s ++ ")_"
    | none => "")

/-- The issues by their category if each has one, or else by their severity, under the titles of
the groups. -/
def titledGroups (issues : List Issue) : List (String × List Issue) :=
  if issues.all (·.category.isSome) then
    (issues.foldl (fun (m : SortedMap (List Issue)) i => m.append (i.category.getD "") i)
      .empty).entries.map fun (key, group) =>
        (str (key.toList.dropWhile Text.isAsciiDigit), group)
  else
    (Severity.all.map fun s => (s.name, issues.filter (·.severity = s))).filter
      fun (_, group) => !group.isEmpty

/-- The scalars of a summary as a table. -/
def scalarTable (summary : Summary) : String :=
  let entries := scalars summary
  if entries.isEmpty then ""
  else
    "| Metric | Value |\n|---|---|\n" ++
    String.join (entries.map fun (key, v) =>
      line ("| " ++ key ++ " | " ++ scalarText cell v ++ " |")) ++ "\n"

/-- The report of a run. -/
def markdownRun (r : Run) : String :=
  "# " ++ r.name ++ "\n\n" ++ "Status: " ++ statusBadge r.status ++ "\n\n" ++
  scalarTable r.summary ++
  if r.issues.isEmpty then line "No issues."
  else String.join ((titledGroups r.issues).map fun (title, group) =>
    "## " ++ title ++ " (" ++ toString group.length ++ ")\n\n" ++
    String.join (group.map issueItem) ++ "\n")

/-- A run as a row of the table of checks. -/
def markdownRow (r : Run) : String :=
  let c := r.counts
  line ("| " ++ r.name ++ " | " ++ statusBadge r.status ++ " | " ++ toString c.errors ++ " | " ++
    toString c.warnings ++ " | " ++ toString c.infos ++ " | " ++ cell r.message ++ " |")

/-- The issues of a run that did not pass. -/
def markdownIssues (r : Run) : String :=
  if r.status = .pass then ""
  else
    "## " ++ r.name ++ " (" ++ statusBadge r.status ++ ")\n\n" ++
    String.join ((r.issues.take maxListed).map issueItem) ++
    (if maxListed < r.issues.length then
      line ("- … and " ++ toString (r.issues.length - maxListed) ++ " more") else "") ++ "\n"

/-- The report of a suite. -/
def markdownSuite (s : Suite) : String :=
  let t := s.totals
  "# gdscan report\n\n" ++
  line ("- Root: \x60" ++ s.root ++ "\x60") ++
  line ("- Mode: " ++ s.mode.name) ++
  line ("- Checks: " ++ toString t.checks ++ " (" ++ toString t.pass ++ " pass, " ++
    toString t.warn ++ " warn, " ++ toString t.fail ++ " fail)") ++
  line ("- Issues: " ++ toString t.errors ++ " errors, " ++ toString t.warnings ++
    " warnings, " ++ toString t.infos ++ " info") ++
  line ("- Generated: " ++ s.generated) ++ "\n" ++
  line "| Check | Status | Errors | Warnings | Info | Metric |" ++
  line "|---|---|---:|---:|---:|---|" ++
  String.join (s.runs.map markdownRow) ++ "\n" ++
  String.join (s.runs.map markdownIssues)

end GodotLint.Report
