import GodotLint.Proofs.Ordering
import GodotLint.Proofs.SortedMap
import GodotLint.Run.Basic

/-!
# The issues of a run and of its failure

What a run reports comes from its check and from the faults of the inputs that the check looks at
(`reported`). The part that a directive silences is `suppressed`, and the rest is `issues`, in order and
less each issue that equals the one before it.

The order looks at file, line, kind and message alone. Issues that differ elsewhere only, in their
severity say, stay as the check reports them, so an issue that is reported a second time after such a
one keeps its repetition. `ofCheck_isIssueReport` says of every run without a restriction to a file what
its issues are, and exactly when none of them repeats; `issues_ofCheck_repeat` is a run where one does.
-/

namespace GodotLint

/-! ## The order of issues -/

namespace Issue

/-- The place of an issue in a report. -/
def sortKey (i : Issue) : String ×ₗ ℕ ×ₗ String ×ₗ String :=
  toLex (i.file, toLex (i.line, toLex (i.kind, i.message)))

end Issue

namespace Run

/-- Issues are sorted by their places. -/
theorem issueLe_iff {a b : Issue} : issueLe a b = true ↔ a.sortKey ≤ b.sortKey := by
  simp only [issueLe, Issue.compare, thenBy, Ordering.isLE_then_iff_or, compare_lt_iff_lt,
    compare_eq_iff_eq, Issue.sortKey, Prod.Lex.toLex_le_toLex]
  simp only [← Ordering.ne_gt_iff_isLE, compare_le_iff_le]

theorem issueLe_total (a b : Issue) : issueLe a b ∨ issueLe b a := by
  rw [issueLe_iff, issueLe_iff]
  exact le_total _ _

theorem issueLe_trans (a b c : Issue) (hab : issueLe a b) (hbc : issueLe b c) : issueLe a c := by
  rw [issueLe_iff] at *
  exact hab.trans hbc

/-! ## What is reported -/

section

variable (check : Check) (timeoutMillis : Nat) (suppressions : Suppressions) (c : Context)

/-- The issues that come from the body of a check. -/
def ownIssues : List Issue :=
  match execute check timeoutMillis c with
  | .ok findings => findings.issues
  | .error message => [failureIssue check.id message]

/-- All issues of a run before some are silenced. -/
def reported : List Issue :=
  restrict check.id c.project c.options.file
    (ownIssues check timeoutMillis c ++ inputIssues check c.project)

/-- What directives silence is put aside. -/
theorem split_eq (issues : List Issue) :
    suppressions.split issues =
      (issues.filter fun i => !suppressions.silences i, issues.filter suppressions.silences) := by
  rw [Suppressions.split, List.partition_eq_filter_filter]
  simp [Function.comp_def]

/-- The issues that directives silence, as they were reported. -/
theorem suppressed_ofCheck :
    (ofCheck check timeoutMillis suppressions c).suppressed =
      (reported check timeoutMillis c).filter suppressions.silences := by
  unfold ofCheck reported ownIssues
  cases execute check timeoutMillis c <;> simp only [split_eq]

/-- The rest is sorted, and what equals the issue before it is dropped. -/
theorem issues_ofCheck :
    (ofCheck check timeoutMillis suppressions c).issues =
      dropRepeats (stableSort issueLe
        ((reported check timeoutMillis c).filter fun i => !suppressions.silences i)) := by
  unfold ofCheck reported ownIssues
  cases execute check timeoutMillis c <;> simp only [split_eq]

end

/-! ## Sorting issues -/

/-- What is left of some issues after sorting has no two equal ones exactly if nothing that goes to the
same place stood between two equal ones. -/
theorem nodup_dropRepeats_stableSort_iff {issues : List Issue} :
    (dropRepeats (stableSort issueLe issues)).Nodup ↔
      ∀ a b, [a, b, a].Sublist issues → b.sortKey = a.sortKey → b = a := by
  rw [nodup_dropRepeats_iff]
  refine forall₂_congr fun a b => ?_
  have hkey : [a, b, a].Sublist (stableSort issueLe issues) → b.sortKey = a.sortKey := by
    intro hsub
    have hsorted := (pairwise_stableSort issueLe_total issueLe_trans issues).sublist hsub
    simp only [List.pairwise_cons, List.mem_cons, forall_eq_or_imp, issueLe_iff] at hsorted
    exact le_antisymm hsorted.2.1.1 hsorted.1.1
  have htied : b.sortKey = a.sortKey →
      ([a, b, a].Sublist (stableSort issueLe issues) ↔ [a, b, a].Sublist issues) := by
    intro hab
    refine sublist_stableSort_iff issueLe_trans (a := a) ?_
    simp [issueLe_iff, hab]
  constructor
  · intro h hsub hab
    exact h ((htied hab).mpr hsub)
  · intro h hsub
    exact h ((htied (hkey hsub)).mp hsub) (hkey hsub)

/-- What a run says about the issues that are found, some of which are silenced. -/
structure IsIssueReport (run : Run) (found : List Issue) (silences : Issue → Bool) : Prop where
  /-- The issues stand in order of file, line, kind and message. -/
  sorted : run.issues.Pairwise fun a b => a.sortKey ≤ b.sortKey
  /-- They are the issues that are found and not silenced. -/
  mem_issues_iff : ∀ i, i ∈ run.issues ↔ i ∈ found ∧ silences i = false
  /-- The silenced ones are put aside as they were found. -/
  suppressed_eq : run.suppressed = found.filter silences
  /-- None stands twice, unless it is found before and after another one of the same place. -/
  nodup_iff : run.issues.Nodup ↔
    ∀ a b, [a, b, a].Sublist (found.filter fun i => !silences i) → b.sortKey = a.sortKey → b = a

/-- **What a run reports**: without a restriction to a file, the issues of the check and of its inputs
in order, less the silenced ones. -/
theorem ofCheck_isIssueReport (check : Check) (timeoutMillis : Nat) (suppressions : Suppressions)
    (c : Context) (hfile : c.options.file = none) :
    IsIssueReport (ofCheck check timeoutMillis suppressions c)
      (ownIssues check timeoutMillis c ++ inputIssues check c.project) suppressions.silences := by
  have hreported : reported check timeoutMillis c =
      ownIssues check timeoutMillis c ++ inputIssues check c.project := by
    rw [reported, hfile, restrict]
  rw [← hreported]
  refine ⟨?_, fun i => ?_, suppressed_ofCheck .., ?_⟩
  · rw [issues_ofCheck]
    refine ((pairwise_stableSort issueLe_total issueLe_trans _).imp ?_).sublist (dropRepeats_sublist _)
    exact issueLe_iff.mp
  · simp [issues_ofCheck]
  · rw [issues_ofCheck, nodup_dropRepeats_stableSort_iff]

/-! ## Issues of one place -/

/-- An issue that could have any severity. -/
def smell (severity : Severity) : Issue :=
  { check := "custom", file := "a.gd", line := 1, kind := "smell", message := "smells", severity }

/-- A check that reports the given issues. -/
def echo (issues : List Issue) : Check :=
  { id := "custom", name := "Custom check", category := .maintenance
    threshold := { metric := "summary.issues" }
    run := fun _ => .finished { summary := .empty, issues } }

/-- One script without directives. -/
def plain : Context := { project := .ofFiles {} [("a.gd", "pass\n")] }

/-- One script that silences smells. -/
def silenced : Context := { project := .ofFiles {} [("a.gd", "# gdscan:ignore-file smell\n")] }

theorem ofCheck_isIssueReport_silenced : silenced.options.file = none ∧
    (suppressionsOf silenced.project).silences (smell .error) = true ∧
    IsIssueReport (single (echo [smell .error, smell .warning]) 60000 silenced)
      (ownIssues (echo [smell .error, smell .warning]) 60000 silenced ++
        inputIssues (echo [smell .error, smell .warning]) silenced.project)
      (suppressionsOf silenced.project).silences :=
  ⟨rfl, by decide +kernel, ofCheck_isIssueReport _ _ _ silenced rfl⟩

/-- An issue that is reported before and after another one of the same place stays twice. -/
theorem issues_ofCheck_repeat : plain.options.file = none ∧
    ¬(single (echo [smell .error, smell .warning, smell .error]) 60000 plain).issues.Nodup := by
  refine ⟨rfl, ?_⟩
  have hkept : ((reported (echo [smell .error, smell .warning, smell .error]) 60000 plain).filter
      fun i => !(suppressionsOf plain.project).silences i) =
        [smell .error, smell .warning, smell .error] := by
    decide +kernel
  rw [single, issues_ofCheck, hkept, nodup_dropRepeats_stableSort_iff]
  intro h
  exact absurd (h (smell .error) (smell .warning) (List.Sublist.refl _) rfl) (by decide)

end Run

end GodotLint

/-!
## Failed checks

A check fails if it takes too long, gives up or breaks down (`Fails`). The run then has the status
`fail`, keeps what is said about the failure, and reports it as an issue of the kind `check_error`, which
belongs to no file. No directive silences this issue, since directives stand in files that have a path
(`exists_script_of_silences`), but a restriction to a file leaves it out. `single_isFailureReport` says
exactly when the issue is reported; `issues_single_broken_restricted` is a run that is silent about the
failure of its check.
-/

namespace GodotLint.Run

variable {check : Check} {timeoutMillis : Nat} {c : Context} {message : String}

/-! ## Failures -/

/-- How a check fails, and what is said about it. -/
inductive Fails (check : Check) (timeoutMillis : Nat) (c : Context) : String → Prop
  | timedOut (htime : timeoutMillis ≤ check.delay) :
      Fails check timeoutMillis c ("check timed out after " ++ toString (timeoutMillis / 1000) ++ "s")
  | gaveUp (htime : check.delay < timeoutMillis) (reasons : List String)
      (hrun : check.run c = .gaveUp reasons) :
      Fails check timeoutMillis c (joinWith ": " reasons)
  | brokeDown (htime : check.delay < timeoutMillis) (what : String)
      (hrun : check.run c = .brokeDown what) :
      Fails check timeoutMillis c ("check panicked: " ++ what)

/-- A check has no findings exactly if it fails. -/
theorem execute_eq_error_iff :
    execute check timeoutMillis c = .error message ↔ Fails check timeoutMillis c message := by
  unfold execute
  constructor
  · intro h
    split_ifs at h with htime
    · cases h
      exact .timedOut htime
    · rw [not_le] at htime
      cases hrun : check.run c with
      | finished findings => simp [hrun] at h
      | gaveUp reasons =>
          simp only [hrun, Except.error.injEq] at h
          exact h ▸ .gaveUp htime reasons hrun
      | brokeDown what =>
          simp only [hrun, Except.error.injEq] at h
          exact h ▸ .brokeDown htime what hrun
  · intro h
    cases h with
    | timedOut htime => rw [if_pos htime]
    | gaveUp htime reasons hrun => rw [if_neg (not_le.mpr htime), hrun]
    | brokeDown htime what hrun => rw [if_neg (not_le.mpr htime), hrun]

/-- A failed check says so in the run. -/
theorem failure_ofCheck (suppressions : Suppressions) (h : Fails check timeoutMillis c message) :
    (ofCheck check timeoutMillis suppressions c).failure = some message := by
  unfold ofCheck
  rw [execute_eq_error_iff.mpr h]

/-- A run with a failure fails, whatever its metric is. -/
theorem status_of_failure {run : Run} (h : run.failure = some message) : run.status = .fail := by
  rw [status, h]
  rfl

/-! ## The issue of a failure -/

/-- Whether an issue tells of a failed check. -/
def isFailure (i : Issue) : Bool := i.kind == "check_error"

/-- A failure is shown if the user asks for no file, or for the root of the project. -/
def ShowsFailures (c : Context) : Prop :=
  ∀ file, c.options.file = some file → Project.relativize c.project.root file = ""

instance (c : Context) : Decidable (ShowsFailures c) :=
  inferInstanceAs (Decidable (∀ file, c.options.file = some file → _ = ""))

/-- The faults of inputs are no failures. -/
theorem isFailure_of_mem_inputIssues {p : Project} {i : Issue} (h : i ∈ inputIssues check p) :
    isFailure i = false := by
  obtain ⟨fault, -, rfl⟩ := List.mem_map.mp h
  rfl

/-- A failed check reports its failure once if failures are shown, and otherwise not at all. -/
theorem filter_isFailure_reported (h : Fails check timeoutMillis c message) :
    (reported check timeoutMillis c).filter isFailure =
      if ShowsFailures c then [failureIssue check.id message] else [] := by
  have hinputs : (inputIssues check c.project).filter isFailure = [] :=
    List.filter_eq_nil_iff.mpr fun i hi => by simp [isFailure_of_mem_inputIssues hi]
  have hfound : (ownIssues check timeoutMillis c ++ inputIssues check c.project).filter isFailure =
      [failureIssue check.id message] := by
    rw [List.filter_append, hinputs, ownIssues, execute_eq_error_iff.mpr h]
    rfl
  unfold reported restrict
  cases hfile : c.options.file with
  | none =>
      rw [if_pos (by simp [ShowsFailures, hfile])]
      exact hfound
  | some file =>
      have hshows : ShowsFailures c ↔ Project.relativize c.project.root file = "" := by
        simp [ShowsFailures, hfile]
      have hmissing : ∀ relative : String, (if c.project.hasFile relative then []
          else [missingFileIssue check.id relative]).filter isFailure = [] := by
        intro relative
        split_ifs <;> rfl
      dsimp only
      rw [List.filter_append, hmissing, List.append_nil, List.filter_comm, hfound]
      by_cases hroot : Project.relativize c.project.root file = ""
      · rw [if_pos (hshows.mpr hroot), hroot]
        rfl
      · rw [if_neg (mt hshows.mp hroot), List.filter_eq_nil_iff]
        simpa [failureIssue] using Ne.symm hroot

/-- What is silenced is covered by a directive of a script that has the path of the issue. -/
theorem exists_directive_of_silences {sources : List Source} {i : Issue}
    (h : (Suppressions.ofSources sources).silences i = true) :
    ∃ s ∈ sources, s.path = i.file ∧
      ∃ d ∈ Suppression.ofLines s.path s.lines, d.covers i = true := by
  obtain ⟨d, hd, hcovers⟩ := List.any_eq_true.mp h
  cases hget : (Suppressions.ofSources sources).get? i.file with
  | none => simp [hget] at hd
  | some directives =>
      rw [hget, Option.getD_some] at hd
      rw [Suppressions.ofSources, SortedMap.get?_ofList] at hget
      obtain ⟨before, after, hlist, -⟩ := List.lookup_eq_some_iff.mp hget
      have hmem : (i.file, directives) ∈ (sources.map fun s =>
          (s.path, Suppression.ofLines s.path s.lines)).filter fun x => !x.2.isEmpty := by
        rw [← List.mem_reverse, hlist]
        simp
      obtain ⟨s, hs, heq⟩ := List.mem_map.mp (List.mem_of_mem_filter hmem)
      obtain ⟨hpath, rfl⟩ := Prod.mk.inj heq
      exact ⟨s, hs, hpath, d, hd, hcovers⟩

/-- What a directive silences is in the file of the directive. -/
theorem exists_source_of_silences {sources : List Source} {i : Issue}
    (h : (Suppressions.ofSources sources).silences i = true) : ∃ s ∈ sources, s.path = i.file := by
  obtain ⟨s, hs, hpath, -⟩ := exists_directive_of_silences h
  exact ⟨s, hs, hpath⟩

/-- A directive that silences a failure stands in a script without a path. -/
theorem exists_script_of_silences {p : Project} {id message : String}
    (h : (suppressionsOf p).silences (failureIssue id message) = true) :
    ∃ s ∈ p.scripts, s.source.path = "" := by
  obtain ⟨source, hsource, hpath⟩ := exists_source_of_silences h
  obtain ⟨s, hs, rfl⟩ := List.mem_map.mp hsource
  exact ⟨s, hs, hpath⟩

/-! ## Reports -/

/-- Sorting and dropping repetitions keep what has a property, if that is one issue at most. -/
theorem filter_dropRepeats_stableSort {p : Issue → Bool} {issues : List Issue}
    (h : (issues.filter p).length ≤ 1) :
    (dropRepeats (stableSort issueLe issues)).filter p = issues.filter p := by
  have hperm := (stableSort_perm issueLe issues).filter p
  have hsorted : (stableSort issueLe issues).filter p = issues.filter p := by
    cases hfilter : issues.filter p with
    | nil =>
        rw [hfilter] at hperm
        exact hperm.eq_nil
    | cons i rest =>
        obtain rfl : rest = [] := by
          rw [hfilter, List.length_cons] at h
          exact List.length_eq_zero_iff.mp (by omega)
        rwa [hfilter, List.perm_singleton] at hperm
  have hsub := (dropRepeats_sublist (stableSort issueLe issues)).filter p
  rw [hsorted] at hsub
  refine hsub.eq_of_length_le ?_
  cases hfilter : issues.filter p with
  | nil => exact Nat.zero_le _
  | cons i rest =>
      have hmem : i ∈ (dropRepeats (stableSort issueLe issues)).filter p := by
        have : i ∈ issues.filter p := by simp [hfilter]
        simpa using this
      rw [hfilter] at h
      exact h.trans (List.length_pos_of_mem hmem)

section reports

variable (h : Fails check timeoutMillis c message)

include h

/-- The issue of a failure is put aside if it is shown and silenced. -/
theorem filter_isFailure_suppressed : (single check timeoutMillis c).suppressed.filter isFailure =
    if ShowsFailures c ∧ (suppressionsOf c.project).silences (failureIssue check.id message) = true then
      [failureIssue check.id message]
    else [] := by
  rw [single, suppressed_ofCheck, List.filter_comm, filter_isFailure_reported h]
  by_cases hshows : ShowsFailures c <;> simp [hshows, List.filter_singleton]

/-- The issue of a failure is reported if it is shown and not silenced. -/
theorem filter_isFailure_issues : (single check timeoutMillis c).issues.filter isFailure =
    if ShowsFailures c ∧ (suppressionsOf c.project).silences (failureIssue check.id message) = false then
      [failureIssue check.id message]
    else [] := by
  have hkept : ((reported check timeoutMillis c).filter fun i =>
      !(suppressionsOf c.project).silences i).filter isFailure =
      (if ShowsFailures c then [failureIssue check.id message] else []).filter fun i =>
        !(suppressionsOf c.project).silences i := by
    rw [List.filter_comm, filter_isFailure_reported h]
  rw [single, issues_ofCheck, filter_dropRepeats_stableSort, hkept]
  · by_cases hshows : ShowsFailures c <;>
      cases hsilenced : (suppressionsOf c.project).silences (failureIssue check.id message) <;>
      simp [hshows, hsilenced]
  · rw [hkept]
    refine (List.length_filter_le _ _).trans ?_
    split_ifs <;> simp

end reports

/-- What a run says about a check that failed. -/
structure IsFailureReport (run : Run) (id message : String) (c : Context) : Prop where
  status_eq : run.status = .fail
  failure_eq : run.failure = some message
  /-- One issue tells of the failure, exactly if failures are shown and it is not silenced. -/
  filter_issues_eq_iff : run.issues.filter isFailure =
    [{ check := id, file := "", line := 0, kind := "check_error"
       message := str (message.toList.take 200), severity := .error }] ↔
      ShowsFailures c ∧ run.suppressed.filter isFailure = []
  /-- Otherwise none does. -/
  filter_issues_eq_nil : ¬(ShowsFailures c ∧ run.suppressed.filter isFailure = []) →
    run.issues.filter isFailure = []
  /-- No directive of a script that has a path silences the failure. -/
  exists_script_of_suppressed : run.suppressed.filter isFailure ≠ [] →
    ∃ s ∈ c.project.scripts, s.source.path = ""

/-- **What a failed check leaves behind**: a failed run, and an issue that no directive of a file
silences and that only a restriction to a file leaves out. -/
theorem single_isFailureReport (h : Fails check timeoutMillis c message) :
    IsFailureReport (single check timeoutMillis c) check.id message c := by
  have hfailure := failure_ofCheck (suppressionsOf c.project) h
  have hissues := filter_isFailure_issues h
  have hsuppressed := filter_isFailure_suppressed h
  generalize hsilences : (suppressionsOf c.project).silences (failureIssue check.id message) = silenced
    at hissues hsuppressed
  have hvisible : ShowsFailures c ∧ (single check timeoutMillis c).suppressed.filter isFailure = [] ↔
      ShowsFailures c ∧ silenced = false := by
    rw [hsuppressed]
    by_cases hshows : ShowsFailures c <;> cases silenced <;> simp [hshows]
  refine ⟨status_of_failure hfailure, hfailure, ?_, ?_, fun hne => ?_⟩
  · rw [hvisible, hissues]
    split_ifs with hshown
    · exact iff_of_true rfl hshown
    · exact iff_of_false nofun hshown
  · rw [hvisible, hissues]
    exact fun hhidden => if_neg hhidden
  · have hboth : ShowsFailures c ∧ silenced = true := by
      by_contra hboth
      exact hne (hsuppressed.trans (if_neg hboth))
    exact exists_script_of_silences (hsilences.trans hboth.2)

/-! ## Failures of one check -/

/-- A check that breaks down. -/
def broken : Check :=
  { id := "custom", name := "Custom check", category := .maintenance
    threshold := { metric := "summary.issues" }
    run := fun _ => .brokeDown "boom" }

/-- One script that silences everything in it. -/
def mute : Project := .ofFiles {} [("a.gd", "# gdscan:ignore-file *\n")]

theorem single_isFailureReport_mute : Fails broken 60000 ⟨mute, {}⟩ "check panicked: boom" ∧
    ShowsFailures ⟨mute, {}⟩ ∧
    IsFailureReport (single broken 60000 ⟨mute, {}⟩) "custom" "check panicked: boom" ⟨mute, {}⟩ := by
  have hfails : Fails broken 60000 ⟨mute, {}⟩ "check panicked: boom" :=
    .brokeDown (by decide) "boom" rfl
  exact ⟨hfails, nofun, single_isFailureReport hfails⟩

/-- One script without directives, which is what the user asks for. -/
def restricted : Context := { plain with options := { file := some "a.gd" } }

/-- A run for one file has no issue that tells of the failure of its check. -/
theorem issues_single_broken_restricted : Fails broken 60000 restricted "check panicked: boom" ∧
    (single broken 60000 restricted).status = .fail ∧
      (single broken 60000 restricted).issues = [] := by
  have hfails : Fails broken 60000 restricted "check panicked: boom" :=
    .brokeDown (by decide) "boom" rfl
  refine ⟨hfails, status_of_failure (failure_ofCheck _ hfails), ?_⟩
  have hreported : reported broken 60000 restricted = [] := by decide +kernel
  rw [single, issues_ofCheck, hreported]
  simp [stableSort, dropRepeats]

end GodotLint.Run
