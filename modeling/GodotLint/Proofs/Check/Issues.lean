import Mathlib
import GodotLint.Check.Registry
import GodotLint.Run.Basic

/-!
# What the checks report

What a check finds does not depend on the file that the user asks for (`run_withFile`), and none of its
issues is of the kind that a run adds for an input that cannot be used
(`isInputFault_of_mem_issues_run`). Both hold of each check in the registry. The issues of a check are
put together from those of single places, so what is shown of an issue is shown of the places first.
-/

namespace GodotLint

/-- The issues of a body that finishes. -/
def Outcome.issues : Outcome → List Issue
  | .finished findings => findings.issues
  | _ => []

/-- An issue looks like one of an input that cannot be used. Such issues are in no group. -/
def Issue.isInputFault (i : Issue) : Bool := i.kind == "input_error" && i.category.isNone

namespace Check

open List (forall_mem_append forall_mem_filterMap forall_mem_flatMap forall_mem_map forall_mem_cons)

/-- **No check looks at the file that the user asks for.** -/
theorem run_withFile {check : Check} (h : check ∈ all) (c : Context) (file : Option String) :
    check.run { c with options := { c.options with file } } = check.run c := by
  revert check
  simp only [all, forall_mem_cons, List.not_mem_nil, IsEmpty.forall_iff, implies_true, and_true]
  refine ⟨rfl, rfl, rfl, rfl, rfl, rfl, rfl, rfl, rfl, rfl, rfl, rfl, rfl, rfl, rfl, rfl, rfl, rfl,
    rfl, rfl, rfl, rfl, rfl, rfl, rfl, rfl, rfl, rfl⟩

variable {c : Context} {i : Issue}

/-! ## Names -/

theorem isInputFault_naming (hi : i ∈ (naming.run c).issues) : i.isInputFault = false := by
  revert i
  simp only [naming, Outcome.issues, forall_mem_filterMap]
  intro x hx i hi
  have hkind : ∀ kind, namingIssueKind kind ≠ "input_error" := by
    intro kind
    cases kind <;> decide
  grind [namingIssue, Issue.isInputFault]

theorem isInputFault_classNames (hi : i ∈ (classNames.run c).issues) : i.isInputFault = false := by
  revert i
  simp only [classNames, Outcome.issues, forall_mem_append, forall_mem_filterMap, forall_mem_map]
  grind [classNameIssue?, duplicateClassIssue, Issue.isInputFault]

/-! ## Structure -/

theorem isInputFault_inheritance (hi : i ∈ (inheritance.run c).issues) : i.isInputFault = false := by
  revert i
  simp only [inheritance, Outcome.issues, forall_mem_filterMap]
  grind [chainIssue?, Issue.isInputFault]

theorem isInputFault_complexity (hi : i ∈ (complexity.run c).issues) : i.isInputFault = false := by
  revert i
  simp only [complexity, Outcome.issues, forall_mem_append, forall_mem_flatMap, Option.mem_toList]
  grind [fileSizeIssue?, lengthIssue?, nestingIssue?, Issue.isInputFault]

/-- The issues of patterns that an earlier branch has matched are of one kind. -/
theorem kind_of_mem_repeatedPatternIssues {file : String} {seen patterns : List (String × Nat)}
    (hi : i ∈ repeatedPatternIssues file seen patterns) : i.kind = "duplicate_pattern" := by
  induction patterns generalizing seen with
  | nil => cases hi
  | cons x rest ih =>
      rw [repeatedPatternIssues] at hi
      split at hi
      · rcases List.mem_cons.mp hi with rfl | hi
        · rfl
        · exact ih hi
      · exact ih hi

theorem isInputFault_matchStatements (hi : i ∈ (matchStatements.run c).issues) :
    i.isInputFault = false := by
  revert i
  simp only [matchStatements, Outcome.issues, matchIssues, forall_mem_append, forall_mem_flatMap,
    Option.mem_toList]
  grind [missingDefaultIssue?, largeBlockIssue?, kind_of_mem_repeatedPatternIssues, Issue.rated,
    Issue.isInputFault]

theorem isInputFault_methodVisibility (hi : i ∈ (methodVisibility.run c).issues) :
    i.isInputFault = false := by
  revert i
  simp only [methodVisibility, Outcome.issues, forall_mem_filterMap]
  rintro ⟨file, f, visibility⟩ - i hi
  cases visibility <;> grind [visibilityIssue?, Issue.isInputFault]

/-! ## Architecture -/

theorem isInputFault_coupling (hi : i ∈ (coupling.run c).issues) : i.isInputFault = false := by
  revert i
  simp only [coupling, Outcome.issues, forall_mem_append, forall_mem_filterMap, forall_mem_map]
  grind [couplingIssue?, layerIssue, Issue.isInputFault]

theorem isInputFault_cyclicImports (hi : i ∈ (cyclicImports.run c).issues) :
    i.isInputFault = false := by
  revert i
  simp only [cyclicImports, Outcome.issues, forall_mem_map]
  grind [cycleIssue, Issue.isInputFault]

theorem isInputFault_autoloads (hi : i ∈ (autoloads.run c).issues) : i.isInputFault = false := by
  revert i
  simp only [autoloads, Outcome.issues, forall_mem_append, forall_mem_filterMap, forall_mem_map]
  grind [autoloadIssue?, autoloadCycleIssue, Issue.isInputFault]

theorem isInputFault_stateMutation (hi : i ∈ (stateMutation.run c).issues) :
    i.isInputFault = false := by
  revert i
  simp only [stateMutation, Outcome.issues, forall_mem_map]
  grind [mutationIssue, Issue.isInputFault]

/-! ## The engine -/

theorem isInputFault_exports (hi : i ∈ (exports.run c).issues) : i.isInputFault = false := by
  revert i
  simp only [exports, Outcome.issues, forall_mem_flatMap]
  grind [exportIssues, untypedExportIssue?, exportTypeIssue?, nodeExportIssue?, Issue.isInputFault]

theorem isInputFault_nodeRefs (hi : i ∈ (nodeRefs.run c).issues) : i.isInputFault = false := by
  revert i
  simp only [nodeRefs, Outcome.issues, lookupIssues, forall_mem_append, forall_mem_filterMap,
    forall_mem_flatMap]
  grind [lookupIssue?, repeatedLookupIssue?, Issue.isInputFault]

theorem isInputFault_signals (hi : i ∈ (signals.run c).issues) : i.isInputFault = false := by
  revert i
  simp only [signals, Outcome.issues, forall_mem_append, forall_mem_filterMap, forall_mem_map]
  grind [signalIssue?, undeclaredSignalIssue, Issue.isInputFault]

theorem isInputFault_inputActions (hi : i ∈ (inputActions.run c).issues) : i.isInputFault = false := by
  simp only [inputActions] at hi
  split_ifs at hi
  · cases hi
  · obtain ⟨r, -, rfl⟩ := List.mem_map.mp hi
    rfl

/-- The pitfalls are in groups. -/
theorem isInputFault_pitfalls (hi : i ∈ (pitfalls.run c).issues) : i.isInputFault = false := by
  revert i
  simp only [pitfalls, pitfallsOf, Outcome.issues, forall_mem_flatMap, forall_mem_map]
  grind [pitfallIssue, Issue.isInputFault]

theorem isInputFault_sceneHealth (hi : i ∈ (sceneHealth.run c).issues) : i.isInputFault = false := by
  revert i
  simp only [sceneHealth, sceneIssues, Outcome.issues, forall_mem_append, forall_mem_flatMap,
    forall_mem_map, Option.mem_toList]
  have hkind : ∀ fault, (sceneFaultText fault).1 ≠ "input_error" := by
    intro fault
    cases fault <;> simp [sceneFaultText]
  grind [sceneFaultIssue, depthIssue, sceneSizeIssue?, Issue.isInputFault]

/-! ## Data -/

theorem isInputFault_dictAccess (hi : i ∈ (dictAccess.run c).issues) : i.isInputFault = false := by
  revert i
  simp only [dictAccess, Outcome.issues, forall_mem_map]
  grind [unsafeAccessIssue, Issue.isInputFault]

theorem isInputFault_dictKeys (hi : i ∈ (dictKeys.run c).issues) : i.isInputFault = false := by
  revert i
  simp only [dictKeys, Outcome.issues, forall_mem_filterMap]
  rintro ⟨key, sites⟩ - i hi
  unfold keyTypoIssue? at hi
  split at hi
  · obtain ⟨k, -, rfl⟩ := Option.map_eq_some_iff.mp hi
    rfl
  · cases hi

theorem isInputFault_jsonRefs (hi : i ∈ (jsonRefs.run c).issues) : i.isInputFault = false := by
  revert i
  simp only [jsonRefs, Outcome.issues, forall_mem_append, forall_mem_flatMap, forall_mem_map]
  grind [brokenReferenceIssue, missingDataResourceIssue, orphanIssue, Issue.rated,
    Issue.isInputFault]

/-! ## Performance -/

theorem isInputFault_awaitPatterns (hi : i ∈ (awaitPatterns.run c).issues) :
    i.isInputFault = false := by
  revert i
  simp only [awaitPatterns, Outcome.issues, forall_mem_filterMap]
  grind [awaitIssue?, Issue.rated, Issue.isInputFault]

theorem isInputFault_tweens (hi : i ∈ (tweens.run c).issues) : i.isInputFault = false := by
  revert i
  simp only [tweens, Tween.issues, Outcome.issues, forall_mem_append, forall_mem_flatMap,
    forall_mem_map]
  grind [Tween.lineIssues, Tween.unstoppedIssue, Issue.isInputFault]

theorem isInputFault_preloadPatterns (hi : i ∈ (preloadPatterns.run c).issues) :
    i.isInputFault = false := by
  revert i
  simp only [preloadPatterns, Outcome.issues, forall_mem_append, forall_mem_filterMap,
    forall_mem_flatMap, forall_mem_map]
  grind [loadIssue?, unusedPreloadIssue, brokenLoadIssue, Issue.isInputFault]

/-! ## Maintenance -/

theorem isInputFault_duplicates (hi : i ∈ (duplicates.run c).issues) : i.isInputFault = false := by
  revert i
  simp only [duplicates, Outcome.issues, forall_mem_flatMap, forall_mem_map]
  grind [repeatedBlockIssue, Issue.isInputFault]

/-- The markers are in the groups of their priorities. -/
theorem isInputFault_todos (hi : i ∈ (todos.run c).issues) : i.isInputFault = false := by
  revert i
  simp only [todos, Outcome.issues, forall_mem_cons, forall_mem_flatMap, Option.mem_toList]
  grind [markerIssue, vagueIssue?, Issue.isInputFault]

theorem isInputFault_printStatements (hi : i ∈ (printStatements.run c).issues) :
    i.isInputFault = false := by
  revert i
  simp only [printStatements, outputOfLine, Outcome.issues, forall_mem_append, forall_mem_flatMap,
    forall_mem_map]
  grind [printIssue, pushIssue, Issue.isInputFault]

theorem isInputFault_commentQuality (hi : i ∈ (commentQuality.run c).issues) :
    i.isInputFault = false := by
  revert i
  simp only [commentQuality, Commentary.issues, Outcome.issues, forall_mem_append,
    forall_mem_filterMap, forall_mem_flatMap, forall_mem_map]
  grind [Commentary.commentedCodeIssue, Commentary.emptyCommentIssue, Commentary.undocumentedIssue?,
    Issue.isInputFault]

theorem isInputFault_deadCode (hi : i ∈ (deadCode.run c).issues) : i.isInputFault = false := by
  revert i
  simp only [deadCode, Outcome.issues, forall_mem_append, forall_mem_filterMap, forall_mem_flatMap]
  refine ⟨fun s _ => ⟨fun f _ i hi => ?_, fun d _ i hi => ?_⟩, fun entry _ i hi => ?_⟩
  · unfold deadFunctionIssue? at hi
    split_ifs at hi
    cases hi
    rfl
  · unfold deadMemberIssue? at hi
    dsimp only at hi
    split at hi
    · cases hi
    · split_ifs at hi
      cases hi
      rfl
  · unfold deadClassIssue? at hi
    split_ifs at hi
    cases hi
    rfl

theorem isInputFault_magicNumbers (hi : i ∈ (magicNumbers.run c).issues) : i.isInputFault = false := by
  revert i
  simp only [magicNumbers, Outcome.issues, forall_mem_filterMap]
  rintro ⟨value, sites⟩ - i hi
  unfold numberIssue? at hi
  split_ifs at hi
  obtain ⟨first, -, rfl⟩ := Option.map_eq_some_iff.mp hi
  rfl

/-! ## All checks -/

/-- **No check reports an issue like that of an input that cannot be used.** -/
theorem isInputFault_of_mem_issues_run {check : Check} (h : check ∈ all)
    (hi : i ∈ (check.run c).issues) : i.isInputFault = false := by
  revert check
  simp only [all, forall_mem_cons, List.not_mem_nil, IsEmpty.forall_iff, implies_true, and_true]
  exact ⟨isInputFault_naming, isInputFault_classNames, isInputFault_inheritance,
    isInputFault_coupling, isInputFault_cyclicImports, isInputFault_autoloads,
    isInputFault_complexity, isInputFault_exports, isInputFault_dictAccess,
    isInputFault_matchStatements, isInputFault_awaitPatterns, isInputFault_nodeRefs,
    isInputFault_signals, isInputFault_inputActions, isInputFault_jsonRefs, isInputFault_pitfalls,
    isInputFault_stateMutation, isInputFault_duplicates, isInputFault_todos,
    isInputFault_printStatements, isInputFault_preloadPatterns, isInputFault_tweens,
    isInputFault_methodVisibility, isInputFault_commentQuality, isInputFault_deadCode,
    isInputFault_sceneHealth, isInputFault_magicNumbers, isInputFault_dictKeys⟩

end Check

end GodotLint
