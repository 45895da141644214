import GodotLint.Proofs.Check.Issues
import GodotLint.Proofs.Project.Loaded
import GodotLint.Proofs.Run.Failure

/-!
# Runs for one file

A run for one file reports what the whole run reports on this file, in the same order
(`single_isProjection`). Sorting and dropping repetitions go along with choosing the issues of a file,
since issues are sorted by file first. For a file that is not in the project, one more issue says so.
It equals no other issue (`missingFileIssue_not_mem_found`), and nothing silences it, because
directives stand in scripts, which are files.
-/

namespace GodotLint.Run

variable {check : Check} {timeoutMillis : Nat} {c : Context} {p : Project} {file path : String}
  {i missing : Issue} {issues : List Issue}

/-! ## The issues of one file -/

/-- Issues that stand between two issues of one place are of the same file. -/
theorem file_eq_of_sublist {a b : Issue} (h : [a, b, a].Sublist (stableSort issueLe issues)) :
    b.file = a.file := by
  have hsorted := (pairwise_stableSort issueLe_total issueLe_trans issues).sublist h
  simp only [List.pairwise_cons, List.mem_cons, forall_eq_or_imp, issueLe_iff] at hsorted
  have hkey : b.sortKey = a.sortKey := le_antisymm hsorted.2.1.1 hsorted.1.1
  exact congrArg (fun k => (ofLex k).1) hkey

/-- The issues of one file in a report are the report of the issues of this file. -/
theorem filter_file_dropRepeats_stableSort (file : String) (issues : List Issue) :
    (dropRepeats (stableSort issueLe issues)).filter (·.file == file) =
      dropRepeats (stableSort issueLe (issues.filter (·.file == file))) := by
  rw [filter_dropRepeats, filter_stableSort_comm issueLe_total issueLe_trans]
  intro a b hsub ha
  rwa [file_eq_of_sublist hsub]

/-! ## One more issue -/

/-- An issue that comes last and equals no other one stands between no two equal issues. -/
theorem ne_of_sublist_stableSort_concat (h : missing ∉ issues) {a b : Issue}
    (hsub : [a, b, a].Sublist (stableSort issueLe (issues ++ [missing]))) (ha : a ≠ missing) :
    b ≠ missing := by
  rintro rfl
  have hsorted := (pairwise_stableSort issueLe_total issueLe_trans _).sublist hsub
  simp only [List.pairwise_cons, List.mem_cons, forall_eq_or_imp] at hsorted
  have htied : ∀ x ∈ [a, b, a], (issueLe a x && issueLe x a) = true := by
    have hself : issueLe a a = true := issueLe_iff.mpr le_rfl
    simp [hself, hsorted.1.1, hsorted.2.1.1]
  -- the three stand in the same order before sorting
  have hbefore := (sublist_stableSort_iff issueLe_trans htied).mp hsub
  have hlast : [b, a].Sublist (issues ++ [b]) := (List.sublist_cons_self a [b, a]).trans hbefore
  rw [List.sublist_append_iff] at hlast
  obtain ⟨l₁, l₂, heq, h₁, h₂⟩ := hlast
  cases l₁ with
  | nil =>
      have hlength := h₂.length_le
      rw [← List.nil_append l₂, ← heq] at hlength
      simp at hlength
  | cons x l₁ =>
      obtain ⟨rfl, -⟩ := List.cons.inj heq
      exact h (h₁.mem List.mem_cons_self)

/-- A report with one more issue is the report without it, and the issue at one place. -/
theorem exists_report_concat (h : missing ∉ issues) : ∃ before after,
    dropRepeats (stableSort issueLe issues) = before ++ after ∧
      dropRepeats (stableSort issueLe (issues ++ [missing])) = before ++ missing :: after := by
  have hkept : ∀ l : List Issue, missing ∉ l → l.filter (· != missing) = l := by
    intro l hl
    refine List.filter_eq_self.mpr fun i hi => bne_iff_ne.mpr ?_
    rintro rfl
    exact hl hi
  have hrest : (dropRepeats (stableSort issueLe (issues ++ [missing]))).filter (· != missing) =
      dropRepeats (stableSort issueLe issues) := by
    rw [filter_dropRepeats, filter_stableSort_comm issueLe_total issueLe_trans, List.filter_append,
      hkept _ h]
    · simp
    · intro a b hsub ha
      rw [bne_iff_ne] at ha ⊢
      exact ne_of_sublist_stableSort_concat h hsub ha
  have hcount : (dropRepeats (stableSort issueLe (issues ++ [missing]))).count missing ≤ 1 := by
    refine ((dropRepeats_sublist _).count_le _).trans ?_
    rw [(stableSort_perm issueLe _).count_eq, List.count_append, List.count_eq_zero_of_not_mem h]
    simp
  have hmem : missing ∈ dropRepeats (stableSort issueLe (issues ++ [missing])) := by simp
  obtain ⟨before, after, heq⟩ := List.append_of_mem hmem
  rw [heq, List.count_append, List.count_cons_self] at hcount
  have hbefore : missing ∉ before := List.count_eq_zero.mp (by omega)
  have hafter : missing ∉ after := List.count_eq_zero.mp (by omega)
  refine ⟨before, after, ?_, heq⟩
  rw [← hrest, heq, List.filter_append, List.filter_cons_of_neg (by simp), hkept _ hbefore,
    hkept _ hafter]

/-! ## What is found -/

/-- The issues that a run finds, whatever file the user asks for. -/
def found (check : Check) (timeoutMillis : Nat) (c : Context) : List Issue :=
  ownIssues check timeoutMillis c ++ inputIssues check c.project

/-- What a check reports itself is a finding or tells that the check failed. -/
theorem mem_issues_run_of_mem_ownIssues (hi : i ∈ ownIssues check timeoutMillis c) :
    i ∈ (check.run c).issues ∨ isFailure i = true := by
  unfold ownIssues execute at hi
  split_ifs at hi
  · rw [List.mem_singleton] at hi
    exact .inr (hi ▸ rfl)
  · cases hrun : check.run c with
    | finished findings =>
        rw [hrun] at hi
        exact .inl hi
    | gaveUp reasons =>
        rw [hrun, List.mem_singleton] at hi
        exact .inr (hi ▸ rfl)
    | brokeDown message =>
        rw [hrun, List.mem_singleton] at hi
        exact .inr (hi ▸ rfl)

/-- The fault of an input is told in other words than that a file is missing. -/
theorem words_ne (fault : InputFault) (file : String) :
    fault.kind ++ ": " ++ fault.message ≠ "missing_file: file not found: " ++ file := by
  intro heq
  have hchars := congrArg String.toList heq
  rw [String.toList_append, String.toList_append, String.toList_append] at hchars
  cases fault with
  | missingFile missing =>
      -- here the tags are equal, and the messages differ
      have hmessage : (InputFault.missingFile missing).message =
          "requested file " ++ missing ++ " is not part of the project" := rfl
      rw [InputFault.kind, hmessage] at hchars
      simp at hchars
  | missingRoot _ => rw [InputFault.kind] at hchars; simp at hchars
  | unreadable _ _ => rw [InputFault.kind] at hchars; simp at hchars
  | unreachable _ => rw [InputFault.kind] at hchars; simp at hchars
  | malformedJson _ _ => rw [InputFault.kind] at hchars; simp at hchars
  | malformedSettings _ _ => rw [InputFault.kind] at hchars; simp at hchars
  | invalidConfig _ _ => rw [InputFault.kind] at hchars; simp at hchars

theorem ne_missingFileIssue {id : String} (hi : i ∈ inputIssues check p) :
    i ≠ missingFileIssue id file := by
  obtain ⟨f, -, rfl⟩ := List.mem_map.mp hi
  intro heq
  exact words_ne f.fault file (congrArg Issue.message heq)

/-- **A missing file is a finding of its own**: nothing that a check of the registry finds equals it. -/
theorem missingFileIssue_not_mem_found (hcheck : check ∈ Check.all) (id file : String) :
    missingFileIssue id file ∉ found check timeoutMillis c := by
  intro hmem
  rcases List.mem_append.mp hmem with hi | hi
  · rcases mem_issues_run_of_mem_ownIssues hi with hi | hi
    · exact Bool.false_ne_true (Check.isInputFault_of_mem_issues_run hcheck hi).symm
    · exact Bool.false_ne_true hi
  · exact ne_missingFileIssue hi rfl

/-- No directive silences that a file is missing, since directives stand in files. -/
theorem silences_missingFileIssue (hproject : p.IsLoaded) (hfile : p.hasFile file = false)
    (id : String) : (suppressionsOf p).silences (missingFileIssue id file) = false := by
  rw [Bool.eq_false_iff]
  intro hsilences
  obtain ⟨source, hsource, hpath⟩ := exists_source_of_silences hsilences
  obtain ⟨s, hs, rfl⟩ := List.mem_map.mp hsource
  have hhas := Project.hasFile_of_mem_scripts hproject hs
  rw [hpath] at hhas
  exact Bool.false_ne_true (hfile.symm.trans hhas)

/-- Without a restriction, a run reports all that is found. -/
theorem reported_of_none (hfile : c.options.file = none) :
    reported check timeoutMillis c = found check timeoutMillis c := by
  rw [reported, hfile, restrict, found]

/-- A run for a file reports what is found in it, and whether it is missing. -/
theorem reported_of_some (hcheck : check ∈ Check.all) :
    reported check timeoutMillis { c with options := { c.options with file := some path } } =
      (found check timeoutMillis { c with options := { c.options with file := none } }).filter
          (·.file == Project.relativize c.project.root path) ++
        if c.project.hasFile (Project.relativize c.project.root path) then []
        else [missingFileIssue check.id (Project.relativize c.project.root path)] := by
  have hown : ownIssues check timeoutMillis
        { c with options := { c.options with file := some path } } =
      ownIssues check timeoutMillis { c with options := { c.options with file := none } } := by
    unfold ownIssues execute
    rw [Check.run_withFile hcheck c (some path), Check.run_withFile hcheck c none]
  rw [reported, hown]
  rfl

/-! ## Restricted runs -/

/-- The run for one file and the run without a restriction, of a check that has the given id. -/
structure IsProjection (p : Project) (id file : String) (whole part : Run) : Prop where
  /-- What is put aside is what the whole run puts aside of the file. -/
  suppressed_eq : part.suppressed = whole.suppressed.filter (·.file == file)
  /-- The issues are those that the whole run has of the file. -/
  issues_of_hasFile : p.hasFile file = true →
    part.issues = whole.issues.filter (·.file == file)
  /-- If there is no such file, one more issue stands among them, which the whole run does not have. -/
  issues_of_missing : p.hasFile file = false → missingFileIssue id file ∉ whole.issues ∧
    ∃ before after, whole.issues.filter (·.file == file) = before ++ after ∧
      part.issues = before ++ missingFileIssue id file :: after

/-- **A restriction is a projection**: the run for a file has what the run without a restriction has of
this file, in the same order, and one issue more if there is no such file. -/
theorem single_isProjection (hproject : p.IsLoaded) (hcheck : check ∈ Check.all) (timeoutMillis : Nat)
    (options : Options) (path : String) :
    IsProjection p check.id (Project.relativize p.root path)
      (single check timeoutMillis ⟨p, { options with file := none }⟩)
      (single check timeoutMillis ⟨p, { options with file := some path }⟩) := by
  set file := Project.relativize p.root path
  set findings := found check timeoutMillis ⟨p, { options with file := none }⟩
  have hwhole : reported check timeoutMillis ⟨p, { options with file := none }⟩ = findings :=
    reported_of_none rfl
  have hpart : reported check timeoutMillis ⟨p, { options with file := some path }⟩ =
      findings.filter (·.file == file) ++
        if p.hasFile file then [] else [missingFileIssue check.id file] :=
    reported_of_some (c := ⟨p, options⟩) hcheck
  have hissues : (single check timeoutMillis ⟨p, { options with file := none }⟩).issues.filter
        (·.file == file) =
      dropRepeats (stableSort issueLe ((findings.filter (·.file == file)).filter
        fun i => !(suppressionsOf p).silences i)) := by
    rw [single, issues_ofCheck, hwhole, filter_file_dropRepeats_stableSort, List.filter_comm]
  have hnew : missingFileIssue check.id file ∉ findings :=
    missingFileIssue_not_mem_found hcheck check.id file
  refine ⟨?_, fun hfile => ?_, fun hfile => ⟨?_, ?_⟩⟩
  · rw [single, single, suppressed_ofCheck, suppressed_ofCheck, hwhole, hpart, List.filter_append,
      List.filter_comm]
    cases hfile : p.hasFile file with
    | true => simp
    | false => simp [silences_missingFileIssue hproject hfile]
  · rw [hissues, single, issues_ofCheck, hpart, if_pos hfile, List.append_nil]
  · rw [single, issues_ofCheck, hwhole]
    intro hmem
    rw [mem_dropRepeats, mem_stableSort] at hmem
    exact hnew (List.mem_of_mem_filter hmem)
  · have hother : missingFileIssue check.id file ∉ (findings.filter (·.file == file)).filter
        fun i => !(suppressionsOf p).silences i :=
      fun hmem => hnew (List.mem_of_mem_filter (List.mem_of_mem_filter hmem))
    have hone : [missingFileIssue check.id file].filter
        (fun i => !(suppressionsOf p).silences i) = [missingFileIssue check.id file] := by
      simp [silences_missingFileIssue hproject hfile]
    rw [hissues, single, issues_ofCheck, hpart, hfile, if_neg Bool.false_ne_true, List.filter_append,
      hone]
    exact exists_report_concat hother

theorem single_isProjection_missing : mute.IsLoaded ∧ Check.naming ∈ Check.all ∧
    mute.hasFile "b.gd" = false ∧
    IsProjection mute "naming" (Project.relativize mute.root "b.gd")
      (single Check.naming 60000 ⟨mute, { file := none }⟩)
      (single Check.naming 60000 ⟨mute, { file := some "b.gd" }⟩) := by
  have hproject : mute.IsLoaded := .ofFiles {} [("a.gd", "# gdscan:ignore-file *\n")]
  have hcheck : Check.naming ∈ Check.all := List.mem_cons_self
  exact ⟨hproject, hcheck, by decide +kernel, single_isProjection hproject hcheck 60000 {} "b.gd"⟩

end GodotLint.Run
