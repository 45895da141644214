import GodotLint.Check.Registry
import GodotLint.Proofs.Ordering
import GodotLint.Proofs.SortedMap

/-!
# What the metrics count

The metric of a check is a number in its summary (`Gauges`). For most checks it is zero exactly if none
of the issues is of the kinds that the check takes most seriously (`isGating`); the other issues are
reported without being counted. Two checks differ: the metric of the names is the number of issues that
a run reports, and the metric of the node references counts references that are not safe, whether or not
there is an issue for them.
-/

namespace GodotLint

/-- What is found below a key is found below the value of this key. -/
theorem valueAt_obj_cons (m : Summary) (key : String) (rest : List String) :
    valueAt (.obj m.entries) (key :: rest) = (m.get? key).bind (valueAt · rest) := rfl

/-- What is found in a map of counts. -/
theorem member?_counts (m : SortedMap Nat) (key : String) :
    (Json.counts m).member? key = (m.get? key).map Json.nat := by
  obtain ⟨entries⟩ := m
  change (entries.map fun x => (x.1, Json.nat x.2)).lookup key = (entries.lookup key).map Json.nat
  induction entries with
  | nil => rfl
  | cons entry rest ih =>
      rw [List.map_cons, List.lookup_cons, List.lookup_cons, ih]
      cases key == entry.1 <;> rfl

namespace Check

open List (forall_mem_append forall_mem_cons forall_mem_filterMap forall_mem_flatMap forall_mem_map)

/-- Whether the metric of a check counts an issue. -/
def isGating (id : String) (i : Issue) : Bool :=
  match id with
  | "class_names" => i.kind == "duplicate_class_name"
  | "inheritance" => i.kind == "inheritance_cycle"
  | "coupling" => i.kind == "layer_violation"
  | "cyclic_imports" => i.kind == "direct_cycle"
  | "autoloads" => i.kind == "missing_autoload_script"
  | "complexity" => i.kind == "long_function"
  | "match_statements" => i.rating == some .high
  | "await_patterns" => i.kind == "hot_path_await"
  | "signals" => i.kind == "unused_signal"
  | "json_refs" => i.kind == "broken_reference" || i.kind == "missing_resource"
  | "todos" => i.category == some "high"
  | "print_statements" => i.kind == "print_statement"
  | "preload_patterns" => i.kind == "broken_import"
  | "tweens" => i.kind == "hot_path_tween"
  | "method_visibility" => i.kind == "private_called_externally"
  | "comment_quality" => i.kind == "commented_code"
  | "dead_code" => i.kind == "unused_private_function"
  | "scene_health" =>
    i.kind == "missing_resource" || i.kind == "duplicate_sibling" || i.kind == "unknown_resource_id"
  | _ => true

/-- The metric of a check is a number that the check puts into its summary, where a run does not
overwrite it, and that is zero exactly if `quiet` holds. -/
structure Gauges (check : Check) (summary : Summary) (quiet : Prop) : Prop where
  sorted : summary.keys.Pairwise (· < ·)
  kept : (metricPath check.threshold.metric).head? ≠ some "suppressed"
  exists_count : ∃ n, valueAt (.obj summary.entries) (metricPath check.threshold.metric) =
    some (.nat n) ∧ (n = 0 ↔ quiet)

variable {check : Check} {c : Context} {findings : Findings} {quiet : Prop} {n : Nat} {key : String}
  {issues others : List Issue} {p : Issue → Bool}

/-- A metric that names an entry. -/
theorem Gauges.of_lookup {entries : List (String × Json)} (key : String)
    (hpath : metricPath check.threshold.metric = [key]) (hkey : key ≠ "suppressed")
    (hlookup : entries.reverse.lookup key = some (.nat n)) (hquiet : n = 0 ↔ quiet) :
    Gauges check (.ofList entries) quiet where
  sorted := SortedMap.pairwise_keys_ofList entries
  kept := by simpa [hpath] using hkey
  exists_count := by
    refine ⟨n, ?_, hquiet⟩
    rw [hpath, valueAt_obj_cons, SortedMap.get?_ofList, hlookup]
    rfl

/-- A metric that names a count within an entry. -/
theorem Gauges.of_counts {entries : List (String × Json)} {counts : SortedMap Nat}
    (key inner : String)
    (hpath : metricPath check.threshold.metric = [key, inner]) (hkey : key ≠ "suppressed")
    (hlookup : entries.reverse.lookup key = some (.counts counts))
    (hcount : counts.get? inner = some n) (hquiet : n = 0 ↔ quiet) :
    Gauges check (.ofList entries) quiet where
  sorted := SortedMap.pairwise_keys_ofList entries
  kept := by simpa [hpath] using hkey
  exists_count := by
    refine ⟨n, ?_, hquiet⟩
    rw [hpath, valueAt_obj_cons, SortedMap.get?_ofList, hlookup, Option.bind_some]
    change ((Json.counts counts).member? inner).bind (valueAt · []) = _
    rw [member?_counts, hcount]
    rfl

/-! ## Counting -/

/-- Some issues are counted. -/
theorem countP_eq_zero_iff : issues.countP p = 0 ↔ ∀ i ∈ issues, p i = false := by
  simp [List.countP_eq_zero]

/-- Some places are counted, each of which has an issue. -/
theorem length_eq_zero_iff_map {α : Type} {xs : List α} {f : α → Issue} (h : ∀ x, p (f x) = true) :
    xs.length = 0 ↔ ∀ i ∈ xs.map f, p i = false := by
  cases xs with
  | nil => simp
  | cons x rest => simp [h x]

/-- All issues are counted. -/
theorem length_eq_zero_iff (h : ∀ i, p i = true) :
    issues.length = 0 ↔ ∀ i ∈ issues, p i = false := by
  have hmap : issues.length = 0 ↔ ∀ i ∈ issues.map fun i => i, p i = false :=
    length_eq_zero_iff_map h
  rwa [List.map_id'] at hmap

/-- Issues that are not counted may stand before the others, ... -/
theorem forall_append_iff_right (h : ∀ i ∈ others, p i = false) :
    (∀ i ∈ others ++ issues, p i = false) ↔ ∀ i ∈ issues, p i = false := by
  rw [forall_mem_append, and_iff_right h]

/-- ... or after them. -/
theorem forall_append_iff_left (h : ∀ i ∈ others, p i = false) :
    (∀ i ∈ issues ++ others, p i = false) ↔ ∀ i ∈ issues, p i = false := by
  rw [forall_mem_append, and_iff_left h]

/-! ## Names -/

theorem gauges_classNames (h : classNames.run c = .finished findings) : Gauges classNames
    findings.summary (∀ i ∈ findings.issues, isGating classNames.id i = false) := by
  cases h
  refine .of_lookup "duplicates" rfl (by decide) rfl ?_
  refine (length_eq_zero_iff_map fun _ => rfl).trans (forall_append_iff_right ?_).symm
  simp only [forall_mem_filterMap]
  intro _ _ i hi
  change (i.kind == "duplicate_class_name") = false
  grind [classNameIssue?]

/-! ## Structure -/

theorem gauges_inheritance (h : inheritance.run c = .finished findings) : Gauges inheritance
    findings.summary (∀ i ∈ findings.issues, isGating inheritance.id i = false) := by
  cases h
  exact .of_lookup "cycles" rfl (by decide) rfl countP_eq_zero_iff

theorem gauges_complexity (h : complexity.run c = .finished findings) : Gauges complexity
    findings.summary (∀ i ∈ findings.issues, isGating complexity.id i = false) := by
  cases h
  exact .of_lookup "long_functions" rfl (by decide) rfl countP_eq_zero_iff

theorem gauges_methodVisibility (h : methodVisibility.run c = .finished findings) :
    Gauges methodVisibility findings.summary
      (∀ i ∈ findings.issues, isGating methodVisibility.id i = false) := by
  cases h
  exact .of_lookup "private_called_externally" rfl (by decide) rfl countP_eq_zero_iff

/-! ## Architecture -/

theorem gauges_coupling (h : coupling.run c = .finished findings) : Gauges coupling
    findings.summary (∀ i ∈ findings.issues, isGating coupling.id i = false) := by
  cases h
  refine .of_lookup "layer_violation_count" rfl (by decide) rfl ?_
  refine (length_eq_zero_iff_map fun _ => rfl).trans (forall_append_iff_right ?_).symm
  simp only [forall_mem_filterMap]
  intro _ _ i hi
  change (i.kind == "layer_violation") = false
  grind [couplingIssue?]

theorem gauges_cyclicImports (h : cyclicImports.run c = .finished findings) : Gauges cyclicImports
    findings.summary (∀ i ∈ findings.issues, isGating cyclicImports.id i = false) := by
  cases h
  refine .of_lookup "direct_cycles" rfl (by decide) rfl ?_
  rw [List.countP_eq_zero, forall_mem_map]
  refine forall₂_congr fun cycle _ => ?_
  change _ ↔ ((cycleIssue c.index.imports cycle).kind == "direct_cycle") = false
  grind [cycleIssue]

theorem gauges_autoloads (h : autoloads.run c = .finished findings) : Gauges autoloads
    findings.summary (∀ i ∈ findings.issues, isGating autoloads.id i = false) := by
  cases h
  refine .of_lookup "missing" rfl (by decide) rfl ?_
  refine countP_eq_zero_iff.trans (forall_append_iff_left ?_).symm
  exact forall_mem_map.mpr fun _ _ => rfl

theorem gauges_stateMutation (h : stateMutation.run c = .finished findings) : Gauges stateMutation
    findings.summary (∀ i ∈ findings.issues, isGating stateMutation.id i = false) := by
  cases h
  exact .of_lookup "violations" rfl (by decide) rfl (length_eq_zero_iff_map fun _ => rfl)

/-! ## The engine -/

theorem gauges_exports (h : exports.run c = .finished findings) : Gauges exports
    findings.summary (∀ i ∈ findings.issues, isGating exports.id i = false) := by
  cases h
  exact .of_lookup "issues" rfl (by decide) rfl (length_eq_zero_iff fun _ => rfl)

theorem gauges_pitfalls (h : pitfalls.run c = .finished findings) : Gauges pitfalls
    findings.summary (∀ i ∈ findings.issues, isGating pitfalls.id i = false) := by
  cases h
  exact .of_lookup "issues" rfl (by decide) rfl (length_eq_zero_iff fun _ => rfl)

theorem gauges_signals (h : signals.run c = .finished findings) : Gauges signals
    findings.summary (∀ i ∈ findings.issues, isGating signals.id i = false) := by
  cases h
  refine .of_lookup "unused" rfl (by decide) rfl ?_
  refine countP_eq_zero_iff.trans (forall_append_iff_left ?_).symm
  exact forall_mem_map.mpr fun _ _ => rfl

theorem gauges_inputActions (h : inputActions.run c = .finished findings) : Gauges inputActions
    findings.summary (∀ i ∈ findings.issues, isGating inputActions.id i = false) := by
  simp only [inputActions] at h
  split_ifs at h
  · cases h
    exact .of_lookup "undefined" (n := 0) rfl (by decide) rfl (by simp)
  · cases h
    exact .of_lookup "undefined" rfl (by decide) rfl (length_eq_zero_iff_map fun _ => rfl)

/-- The references that are not safe are counted, whether or not there is an issue for them. -/
theorem gauges_nodeRefs (h : nodeRefs.run c = .finished findings) : Gauges nodeRefs
    findings.summary (∀ s ∈ c.scripts, ∀ r ∈ s.facts.nodeRefs, r.safe = true) := by
  cases h
  refine .of_lookup "unsafe" rfl (by decide) rfl ?_
  rw [List.countP_eq_zero, forall_mem_flatMap]
  simp

theorem gauges_sceneHealth (h : sceneHealth.run c = .finished findings) : Gauges sceneHealth
    findings.summary (∀ i ∈ findings.issues, isGating sceneHealth.id i = false) := by
  cases h
  refine .of_lookup "broken" rfl (by decide) rfl ?_
  rw [sumOf_eq_zero_iff, forall_mem_flatMap]
  refine forall₂_congr fun s _ => ?_
  have hfault : ∀ fault, isGating sceneHealth.id (sceneFaultIssue s.file fault) = true := by
    rintro ⟨line, fault⟩
    cases fault <;> rfl
  have hdepth : ∀ i ∈ (tooDeep c.config.scenes s).map (depthIssue c.config.scenes s.file),
      isGating sceneHealth.id i = false := forall_mem_map.mpr fun _ _ => rfl
  have hsize : ∀ i ∈ (sceneSizeIssue? c.config.scenes s).toList,
      isGating sceneHealth.id i = false := by
    intro i hi
    change (i.kind == "missing_resource" || i.kind == "duplicate_sibling" ||
      i.kind == "unknown_resource_id") = false
    grind [sceneSizeIssue?]
  rw [sceneIssues, forall_append_iff_left hsize, forall_append_iff_left hdepth]
  exact length_eq_zero_iff_map hfault

/-! ## Data -/

theorem gauges_dictAccess (h : dictAccess.run c = .finished findings) : Gauges dictAccess
    findings.summary (∀ i ∈ findings.issues, isGating dictAccess.id i = false) := by
  cases h
  exact .of_lookup "unsafe" rfl (by decide) rfl (length_eq_zero_iff_map fun _ => rfl)

theorem gauges_dictKeys (h : dictKeys.run c = .finished findings) : Gauges dictKeys
    findings.summary (∀ i ∈ findings.issues, isGating dictKeys.id i = false) := by
  cases h
  exact .of_lookup "suspicious" rfl (by decide) rfl (length_eq_zero_iff fun _ => rfl)

theorem gauges_jsonRefs (h : jsonRefs.run c = .finished findings) : Gauges jsonRefs
    findings.summary (∀ i ∈ findings.issues, isGating jsonRefs.id i = false) := by
  cases h
  refine .of_lookup "broken" rfl (by decide) rfl ?_
  have hlonely : ∀ (entries : List (String × String × Nat)), ∀ i ∈ entries.map fun entry =>
      orphanIssue entry.1 entry.2, isGating jsonRefs.id i = false :=
    fun entries => forall_mem_map.mpr fun _ _ => rfl
  rw [forall_append_iff_left (hlonely _), forall_mem_flatMap, Nat.add_eq_zero_iff,
    List.length_eq_zero_iff, List.length_eq_zero_iff, List.flatMap_eq_nil_iff,
    List.flatMap_eq_nil_iff, ← forall₂_and]
  refine forall₂_congr fun d _ => ?_
  rw [forall_mem_append, List.map_eq_nil_iff, ← List.length_eq_zero_iff, ← List.length_eq_zero_iff]
  exact and_congr (length_eq_zero_iff_map fun _ => rfl) (length_eq_zero_iff_map fun _ => rfl)

/-! ## Performance -/

theorem gauges_awaitPatterns (h : awaitPatterns.run c = .finished findings) : Gauges awaitPatterns
    findings.summary (∀ i ∈ findings.issues, isGating awaitPatterns.id i = false) := by
  cases h
  exact .of_lookup "hot_path" rfl (by decide) rfl countP_eq_zero_iff

theorem gauges_tweens (h : tweens.run c = .finished findings) : Gauges tweens
    findings.summary (∀ i ∈ findings.issues, isGating tweens.id i = false) := by
  cases h
  exact .of_lookup "hot_path" rfl (by decide) rfl countP_eq_zero_iff

theorem gauges_preloadPatterns (h : preloadPatterns.run c = .finished findings) :
    Gauges preloadPatterns findings.summary
      (∀ i ∈ findings.issues, isGating preloadPatterns.id i = false) := by
  cases h
  refine .of_lookup "broken" rfl (by decide) rfl ?_
  refine (length_eq_zero_iff_map fun _ => rfl).trans (forall_append_iff_right ?_).symm
  simp only [forall_mem_append, forall_mem_filterMap, forall_mem_flatMap, forall_mem_map]
  refine fun s _ => ⟨fun _ _ i hi => ?_, fun _ _ => rfl⟩
  change (i.kind == "broken_import") = false
  grind [loadIssue?]

/-! ## Maintenance -/

theorem gauges_printStatements (h : printStatements.run c = .finished findings) :
    Gauges printStatements findings.summary
      (∀ i ∈ findings.issues, isGating printStatements.id i = false) := by
  cases h
  exact .of_lookup "prints" rfl (by decide) rfl countP_eq_zero_iff

theorem gauges_commentQuality (h : commentQuality.run c = .finished findings) :
    Gauges commentQuality findings.summary
      (∀ i ∈ findings.issues, isGating commentQuality.id i = false) := by
  cases h
  exact .of_lookup "commented_code" rfl (by decide) rfl countP_eq_zero_iff

theorem gauges_deadCode (h : deadCode.run c = .finished findings) : Gauges deadCode
    findings.summary (∀ i ∈ findings.issues, isGating deadCode.id i = false) := by
  cases h
  exact .of_lookup "unused_functions" rfl (by decide) rfl countP_eq_zero_iff

/-- A group has at least two blocks. -/
theorem ne_nil_of_mem_repeatedGroups {blocks others : List Block} {key : String} {first : Block}
    (h : (key, first, others) ∈ repeatedGroups blocks) : others ≠ [] := by
  obtain ⟨⟨key, group⟩, -, hgroup⟩ := List.mem_filterMap.mp h
  dsimp only at hgroup
  split at hgroup
  · cases hgroup
    exact List.cons_ne_nil _ _
  · cases hgroup

theorem gauges_duplicates (h : duplicates.run c = .finished findings) : Gauges duplicates
    findings.summary (∀ i ∈ findings.issues, isGating duplicates.id i = false) := by
  cases h
  refine .of_lookup "duplicate_groups" rfl (by decide) rfl ?_
  rw [List.length_eq_zero_iff, List.eq_nil_iff_forall_not_mem, forall_mem_flatMap]
  refine forall₂_congr fun ⟨key, first, others⟩ hgroup => ?_
  have hothers := mt List.length_eq_zero_iff.mp (ne_nil_of_mem_repeatedGroups hgroup)
  exact iff_of_false not_false (mt (length_eq_zero_iff_map fun _ => rfl).mpr hothers)

/-- A number that is used often has an issue. -/
theorem exists_numberIssue? {minUses : Nat} {sites : List Site} (value : String) (hmin : 2 ≤ minUses)
    (huses : minUses ≤ sites.length) : ∃ i, numberIssue? minUses value sites = some i := by
  have hne : stableSort siteLe sites ≠ [] := by
    rw [Ne, ← List.length_eq_zero_iff, (stableSort_perm siteLe sites).length_eq]
    omega
  rw [numberIssue?, if_neg (not_lt.mpr huses), List.head?_eq_some_head hne]
  exact ⟨_, rfl⟩

theorem gauges_magicNumbers (h : magicNumbers.run c = .finished findings) : Gauges magicNumbers
    findings.summary (∀ i ∈ findings.issues, isGating magicNumbers.id i = false) := by
  cases h
  refine .of_lookup "repeated_values" rfl (by decide) rfl ?_
  rw [List.length_eq_zero_iff, List.eq_nil_iff_forall_not_mem, forall_mem_filterMap]
  refine forall₂_congr fun ⟨value, sites⟩ hoften => iff_of_false not_false fun hquiet => ?_
  have huses : max (c.limit c.config.magicOccurrences) 2 ≤ sites.length := by
    simpa using (List.mem_filter.mp hoften).2
  obtain ⟨i, hi⟩ := exists_numberIssue? value (le_max_right _ _) huses
  exact Bool.false_ne_true (hquiet i hi).symm

theorem gauges_matchStatements (h : matchStatements.run c = .finished findings) :
    Gauges matchStatements findings.summary
      (∀ i ∈ findings.issues, isGating matchStatements.id i = false) := by
  cases h
  refine .of_counts "by_rating" "high" rfl (by decide) rfl (SortedMap.get?_ofList _ _) ?_
  refine countP_eq_zero_iff.trans (forall₂_congr fun i _ => ?_)
  change _ ↔ (i.rating == some .high) = false
  simp

/-- A tally counts the names that it lists. -/
theorem get?_tallyWith {names xs : List String} {name : String} (hnames : names.Nodup)
    (h : name ∈ names) : (tallyWith names xs).get? name = some (xs.count name) := by
  have hzero : (SortedMap.ofList (names.map fun n => (n, 0))).get? name = some 0 := by
    refine SortedMap.get?_ofList_of_mem ?_ (List.mem_map_of_mem h)
    simpa [Function.comp_def] using hnames
  rw [tallyWith, SortedMap.get?_foldl_count xs (SortedMap.pairwise_keys_ofList _), hzero]
  split_ifs with hmem
  · rw [Option.getD_some, Nat.zero_add]
  · rw [List.count_eq_zero_of_not_mem hmem]

theorem gauges_todos (h : todos.run c = .finished findings) : Gauges todos
    findings.summary (∀ i ∈ findings.issues, isGating todos.id i = false) := by
  cases h
  refine .of_counts "by_priority" "high" rfl (by decide) rfl
    (get?_tallyWith (by decide) (by decide)) ?_
  rw [List.count, List.countP_map, List.countP_eq_zero]
  refine Iff.trans (forall₂_congr fun ⟨file, m⟩ _ => ?_) forall_mem_flatMap.symm
  -- both issues of a marker have its priority
  have hvague : ∀ i ∈ vagueIssue? file m, i.category = some m.priority.name := by
    grind [vagueIssue?]
  rw [forall_mem_cons]
  constructor
  · intro hpriority
    have hnot : (m.priority.name == "high") = false := by simpa using hpriority
    refine ⟨hnot, fun i hi => ?_⟩
    change (i.category == some "high") = false
    rw [hvague i (Option.mem_toList.mp hi)]
    exact hnot
  · rintro ⟨hmarker, -⟩
    exact Bool.eq_false_iff.mp hmarker

/-! ## All checks -/

/-- **What the metrics count**: the metric of a check is zero exactly if none of its issues is gating,
except for the names and the node references. -/
theorem gauges_of_mem (hcheck : check ∈ all) (hnaming : check.id ≠ "naming")
    (hnodeRefs : check.id ≠ "node_refs") (h : check.run c = .finished findings) :
    Gauges check findings.summary (∀ i ∈ findings.issues, isGating check.id i = false) := by
  revert check
  simp only [all, forall_mem_cons, List.not_mem_nil, IsEmpty.forall_iff, implies_true, and_true]
  exact ⟨fun hid => absurd rfl hid, fun _ _ => gauges_classNames, fun _ _ => gauges_inheritance,
    fun _ _ => gauges_coupling, fun _ _ => gauges_cyclicImports, fun _ _ => gauges_autoloads,
    fun _ _ => gauges_complexity, fun _ _ => gauges_exports, fun _ _ => gauges_dictAccess,
    fun _ _ => gauges_matchStatements, fun _ _ => gauges_awaitPatterns,
    fun _ hid => absurd rfl hid, fun _ _ => gauges_signals, fun _ _ => gauges_inputActions,
    fun _ _ => gauges_jsonRefs, fun _ _ => gauges_pitfalls, fun _ _ => gauges_stateMutation,
    fun _ _ => gauges_duplicates, fun _ _ => gauges_todos, fun _ _ => gauges_printStatements,
    fun _ _ => gauges_preloadPatterns, fun _ _ => gauges_tweens, fun _ _ => gauges_methodVisibility,
    fun _ _ => gauges_commentQuality, fun _ _ => gauges_deadCode, fun _ _ => gauges_sceneHealth,
    fun _ _ => gauges_magicNumbers, fun _ _ => gauges_dictKeys⟩

end Check

end GodotLint
