import GodotLint.Proofs.Check.Comments
import GodotLint.Proofs.Pattern.Scan
import GodotLint.Proofs.Project.Loaded
import GodotLint.Proofs.Run.Status

/-!
# Runs without comments

A project that is put together from scripts without comments is, apart from what tells of comments,
the project itself (`bare_assemble_withoutComments`). So the checks, other than those that are made
to read comments, find the same, apart from the types that a comment hides, and their runs are the
same if no line spells a directive (`single_withoutComments`, `single_exports_hidden`).
-/

namespace GodotLint

open Text

namespace Check

/-- Which checks look at no comment. -/
theorem isCommentBlind_of_mem_all {check : Check} (hcheck : check ∈ all)
    (hid : check.id ∉ ["todos", "comment_quality", "exports"]) : check.IsCommentBlind := by
  fin_cases hcheck
  · exact naming_isCommentBlind
  · exact classNames_isCommentBlind
  · exact inheritance_isCommentBlind
  · exact coupling_isCommentBlind
  · exact isCommentBlind_of_tables _ (by simp)
  · exact isCommentBlind_of_tables _ (by simp)
  · exact complexity_isCommentBlind
  · exact absurd (by simp [exports]) hid
  · exact dictAccess_isCommentBlind
  · exact matchStatements_isCommentBlind
  · exact awaitPatterns_isCommentBlind
  · exact nodeRefs_isCommentBlind
  · exact isCommentBlind_of_tables _ (by simp)
  · exact isCommentBlind_of_tables _ (by simp)
  · exact isCommentBlind_of_tables _ (by simp)
  · exact pitfalls_isCommentBlind
  · exact stateMutation_isCommentBlind
  · exact duplicates_isCommentBlind
  · exact absurd (by simp [todos]) hid
  · exact printStatements_isCommentBlind
  · exact preloadPatterns_isCommentBlind
  · exact tweens_isCommentBlind
  · exact methodVisibility_isCommentBlind
  · exact absurd (by simp [commentQuality]) hid
  · exact deadCode_isCommentBlind
  · exact isCommentBlind_of_tables _ (by simp)
  · exact magicNumbers_isCommentBlind
  · exact isCommentBlind_of_tables _ (by simp)

end Check

/-! ## Directives -/

namespace Suppression

/-- A line that spells no directive has none in its code. -/
theorem find?_directive_code {raw : List Char} (h : directive.occursIn raw = false) :
    directive.find? (Line.code raw) = none := by
  obtain ⟨rest, hraw, -⟩ := Line.code_spec raw
  have hopen : directive.isOpenEnded = true := by decide
  rw [← Option.not_isSome_iff_eq_none]
  intro hcode
  have hoccurs := Pattern.occursIn_append hopen hcode rest
  rw [← hraw, h] at hoccurs
  cases hoccurs

theorem ofLines_eq_nil {file : String} {lines : List (List Char)}
    (h : ∀ raw ∈ lines, directive.find? raw = none) : ofLines file lines = [] := by
  have hscan : ∀ inHeader number, scan file inHeader number lines = [] := by
    induction lines with
    | nil => exact fun _ _ => rfl
    | cons raw rest ih =>
        obtain ⟨hraw, hrest⟩ := List.forall_mem_cons.mp h
        intro inHeader number
        have hline : ∀ inHeader, ofLine? file raw number inHeader = none := by
          intro inHeader
          rw [ofLine?, hraw]
          rfl
        rw [scan, hline, ih hrest]
        rfl
  exact hscan true 1

/-- Scripts that spell no directive have none. -/
theorem ofSources_eq_empty {sources : List Source}
    (h : ∀ s ∈ sources, ∀ raw ∈ s.lines, directive.find? raw = none) :
    Suppressions.ofSources sources = .empty := by
  have hnone : ((sources.map fun s => (s.path, ofLines s.path s.lines)).filter
      fun entry => !entry.2.isEmpty) = [] := by
    rw [List.filter_eq_nil_iff]
    intro entry hentry
    obtain ⟨s, hs, rfl⟩ := List.mem_map.mp hentry
    rw [ofLines_eq_nil (h s hs)]
    exact Bool.false_ne_true
  rw [Suppressions.ofSources, hnone]
  rfl

end Suppression

/-! ## Projects -/

namespace Project

variable (root : String) (config : Config) (sources : List Source) (documents : List Document)
  (files : List String) (faults : List FileFault)

/-- A project of scripts without comments is, less what tells of comments, the project. -/
theorem bare_assemble_withoutComments :
    (assemble root config (sources.map Source.withoutComments) documents files faults).bare =
      (assemble root config sources documents files faults).bare := by
  have hindex := (index_assemble_withoutComments root config documents files faults sources).2
  have hscripts : ((sources.map Source.withoutComments).map Script.ofSource).map Script.bare =
      (sources.map Script.ofSource).map Script.bare := by
    simp only [List.map_map]
    refine List.map_congr_left fun s _ => Script.bare_ofSource_congr rfl ?_
    rw [s.lines_withoutComments, List.map_map]
    simp only [Function.comp_def, Line.code_code]
  simp only [assemble, bare] at hindex ⊢
  rw [hindex, hscripts]

end Project

/-! ## Runs -/

namespace Run

variable {check : Check} {root : String} {config : Config} {sources : List Source}
  {documents : List Project.Document} {files : List String} {faults : List FileFault}
  {options : Options}

/-- What a check finds without comments: the same, unless it is the check of exported variables and
a comment hides that a type is missing. -/
theorem run_withoutComments_iff (hcheck : check ∈ Check.all)
    (hid : check.id ∉ ["todos", "comment_quality"]) :
    check.run ⟨.assemble root config (sources.map Source.withoutComments) documents files faults,
        options⟩ =
      check.run ⟨.assemble root config sources documents files faults, options⟩ ↔
    (check.id = "exports" →
      ∀ s ∈ sources, ∀ d ∈ (Script.ofSource s).facts.declarationsOf .export,
        ¬ Check.CommentHidesType (s.line d.line) d) := by
  let c : Context := ⟨.assemble root config sources documents files faults, options⟩
  let c' : Context :=
    ⟨.assemble root config (sources.map Source.withoutComments) documents files faults, options⟩
  change check.run c' = check.run c ↔ _
  have hbare : c'.bare = c.bare :=
    congrArg (Context.mk · options) (Project.bare_assemble_withoutComments ..)
  by_cases hexports : check.id = "exports"
  · have heq : check = Check.exports := eq_of_id_eq hcheck (by simp [Check.all]) hexports
    subst heq
    -- the lines of the project without comments are code
    have hcode : Check.exports.run c'.bare = Check.exports.run c' := by
      refine (Check.exports_run_bare_iff c').mpr fun s hs d _ => ?_
      obtain ⟨source, hsource, hs⟩ := Project.exists_of_mem_scripts_assemble hs
      obtain ⟨source, -, rfl⟩ := List.mem_map.mp hsource
      rw [hs, Source.line_withoutComments]
      exact Check.not_commentHidesType_code
    rw [← hcode, hbare, Check.exports_run_bare_iff]
    have hscripts : c.scripts = sources.map Script.ofSource := rfl
    rw [hscripts, List.forall_mem_map]
    exact ⟨fun h _ => h, fun h => h hexports⟩
  · have hblind : check.IsCommentBlind :=
      Check.isCommentBlind_of_mem_all hcheck (by simp_all)
    rw [← hblind c', ← hblind c, hbare]
    exact iff_of_true rfl fun h => absurd h hexports

/-- A run depends on what its check finds and, for the rest, not on the scripts. -/
theorem ofCheck_withoutComments {suppressions : Suppressions} {timeoutMillis : Nat}
    (hrun : check.run ⟨.assemble root config (sources.map Source.withoutComments) documents files
        faults, options⟩ =
      check.run ⟨.assemble root config sources documents files faults, options⟩) :
    ofCheck check timeoutMillis suppressions
        ⟨.assemble root config (sources.map Source.withoutComments) documents files faults, options⟩ =
      ofCheck check timeoutMillis suppressions
        ⟨.assemble root config sources documents files faults, options⟩ := by
  simp only [ofCheck, execute, hrun]
  rfl

/-- **Checks are blind to comments.** For scripts that spell no directive, every check other than
those of markers and of comments finds the same without comments, and its run is the same, unless it
is the check of exported variables and a comment hides that a type is missing. -/
theorem single_withoutComments (root : String) (config : Config) (sources : List Source)
    (documents : List Project.Document) (files : List String) (faults : List FileFault)
    (options : Options) (timeoutMillis : Nat) (hcheck : check ∈ Check.all)
    (hid : check.id ∉ ["todos", "comment_quality"])
    (hnone : ∀ s ∈ sources, ∀ raw ∈ s.lines, Suppression.directive.occursIn raw = false) :
    let c : Context := ⟨.assemble root config sources documents files faults, options⟩
    let c' : Context :=
      ⟨.assemble root config (sources.map Source.withoutComments) documents files faults, options⟩
    (check.run c' = check.run c ↔ (check.id = "exports" →
      ∀ s ∈ sources, ∀ d ∈ (Script.ofSource s).facts.declarationsOf .export,
        ¬ Check.CommentHidesType (s.line d.line) d)) ∧
    (check.run c' = check.run c → single check timeoutMillis c' = single check timeoutMillis c) := by
  intro c c'
  refine ⟨run_withoutComments_iff hcheck hid, fun hrun => ?_⟩
  have hsources : ∀ sources : List Source,
      ((sources.map Script.ofSource).map (·.source)) = sources := by
    intro sources
    rw [List.map_map]
    exact List.map_id _
  have hsuppressions : suppressionsOf c.project = .empty := by
    change Suppressions.ofSources ((sources.map Script.ofSource).map (·.source)) = _
    rw [hsources]
    refine Suppression.ofSources_eq_empty fun s hs raw hraw => ?_
    exact Option.not_isSome_iff_eq_none.mp (Bool.eq_false_iff.mp (hnone s hs raw hraw))
  have hsuppressions' : suppressionsOf c'.project = .empty := by
    change Suppressions.ofSources
      (((sources.map Source.withoutComments).map Script.ofSource).map (·.source)) = _
    rw [hsources]
    refine Suppression.ofSources_eq_empty fun s hs raw hraw => ?_
    obtain ⟨source, hsource, rfl⟩ := List.mem_map.mp hs
    rw [source.lines_withoutComments] at hraw
    obtain ⟨line, hline, rfl⟩ := List.mem_map.mp hraw
    exact Suppression.find?_directive_code (hnone source hsource line hline)
  rw [single, single, hsuppressions, hsuppressions']
  exact ofCheck_withoutComments hrun

/-! ## A type that is hidden -/

/-- A script with an exported variable without a type, and the sign of an inferred type in the
comment. -/
def hidden : Source := .ofText "a.gd" "@export var a = b # :=\n".toList

/-- The project of a script, in which no other file is looked at. -/
def projectOf (s : Source) : Project := .assemble "." {} [s] [] [s.path] []

theorem single_withoutComments_print : Check.printStatements ∈ Check.all ∧
    Check.printStatements.id ∉ ["todos", "comment_quality"] ∧
    (∀ s ∈ [hidden], ∀ raw ∈ s.lines, Suppression.directive.occursIn raw = false) ∧
    Check.printStatements.run ⟨projectOf hidden.withoutComments, {}⟩ =
      Check.printStatements.run ⟨projectOf hidden, {}⟩ ∧
    single Check.printStatements 1000 ⟨projectOf hidden.withoutComments, {}⟩ =
      single Check.printStatements 1000 ⟨projectOf hidden, {}⟩ := by
  have hcheck : Check.printStatements ∈ Check.all := by simp [Check.all]
  have hid : Check.printStatements.id ∉ ["todos", "comment_quality"] := by decide
  have hnone : ∀ s ∈ [hidden], ∀ raw ∈ s.lines, Suppression.directive.occursIn raw = false := by
    decide +kernel
  obtain ⟨hiff, hsingle⟩ :=
    single_withoutComments "." {} [hidden] [] [hidden.path] [] {} 1000 hcheck hid hnone
  have hrun := hiff.mpr fun hexports => absurd hexports (by decide)
  exact ⟨hcheck, hid, hnone, hrun, hsingle hrun⟩

/-- The check of exported variables finds nothing in the script, and without the comment it does. -/
theorem single_exports_hidden :
    (∀ raw ∈ hidden.lines, Suppression.directive.occursIn raw = false) ∧
    (single Check.exports 1000 ⟨projectOf hidden, {}⟩).issues = [] ∧
    (single Check.exports 1000 ⟨projectOf hidden.withoutComments, {}⟩).issues.map (·.kind) =
      ["missing_export_type"] := by
  have hnone : (reported Check.exports 1000 ⟨projectOf hidden, {}⟩).filter
      (fun i => !(suppressionsOf (projectOf hidden)).silences i) = [] := by
    decide +kernel
  have hfound : ((reported Check.exports 1000 ⟨projectOf hidden.withoutComments, {}⟩).filter
      fun i => !(suppressionsOf (projectOf hidden.withoutComments)).silences i).map (·.kind) =
        ["missing_export_type"] := by
    decide +kernel
  refine ⟨by decide +kernel, ?_, ?_⟩
  · rw [single, issues_ofCheck, hnone]
    simp [stableSort, dropRepeats]
  · obtain ⟨i, hi, hkind⟩ := List.map_eq_singleton_iff.mp hfound
    rw [single, issues_ofCheck, hi]
    simpa [stableSort, insertBefore, dropRepeats] using hkind

end Run

end GodotLint
