import GodotLint.Proofs.Check.Issues
import GodotLint.Proofs.Check.Metrics
import GodotLint.Proofs.Float.Counts
import GodotLint.Proofs.Run.Failure

/-!
# The status of a run

A run adds to the summary of its check how many issues there are and how many of them are suppressed.
Any other entry is as the check made it, and so is a count of issues that the check made itself
(`value_ofCheck`). A check whose metric is such an entry is judged by it (`status_ofCheck`), whatever
issues are left out of the report. A check that fails from one on fails if it counts anything
(`status_ofCheck_eq_fail`).

The metric of a check is a number, and without configured bounds a check passes exactly if it is zero
(`status_eq_pass_iff`). Most metrics are counted by the checks themselves, before directives silence
issues, so a check with a silenced issue that its metric counts does not pass
(`status_stateMutation_excused`). Only the metric of the names is counted afterwards. `ofCheck_isGated`
says for every check of the registry exactly when it passes.
-/

namespace GodotLint.Run

variable {check : Check} {c : Context} {findings : Findings} {v : Json} {key : String}
  {rest : List String} {n timeoutMillis : Nat} {run : Run} {suppressions : Suppressions}

/-! ## The metric -/

/-- The threshold that a configuration sets is for the metric of the check. -/
theorem metric_thresholdOf (check : Check) (config : Config) :
    (thresholdOf check config).metric = check.threshold.metric := by
  unfold thresholdOf
  split <;> rfl

/-- A run with findings has no failure. -/
theorem failure_ofCheck_eq_none (suppressions : Suppressions)
    (hbody : execute check timeoutMillis c = .ok findings) :
    (ofCheck check timeoutMillis suppressions c).failure = none := by
  unfold ofCheck
  rw [hbody]

/-- A run puts two counts into the summary of its check. -/
theorem summary_ofCheck (suppressions : Suppressions)
    (hbody : execute check timeoutMillis c = .ok findings) :
    (ofCheck check timeoutMillis suppressions c).summary =
      (findings.summary.insertIfNew "issues"
        (.nat (ofCheck check timeoutMillis suppressions c).issues.length)).insert "suppressed"
        (.nat (ofCheck check timeoutMillis suppressions c).suppressed.length) := by
  unfold ofCheck
  rw [hbody]

/-- **Which value the metric has**: the one that the check put into its summary, where the path of the
metric leads. -/
theorem value_ofCheck (hbody : execute check timeoutMillis c = .ok findings)
    (hpath : metricPath check.threshold.metric = key :: rest) (hsuppressed : key ≠ "suppressed")
    (hissues : key ≠ "issues" ∨ findings.summary.keys.Pairwise (· < ·))
    (hvalue : valueAt (.obj findings.summary.entries) (key :: rest) = some v) :
    (ofCheck check timeoutMillis suppressions c).value = metricNumber v := by
  rw [valueAt_obj_cons] at hvalue
  obtain ⟨w, hw, hrest⟩ := Option.bind_eq_some_iff.mp hvalue
  have hentry : (ofCheck check timeoutMillis suppressions c).summary.get? key = some w := by
    rw [summary_ofCheck suppressions hbody, SortedMap.insert, SortedMap.get?_alter_of_ne hsuppressed,
      SortedMap.insertIfNew]
    by_cases hkey : key = "issues"
    · -- a count of issues that the check made is kept
      rw [hkey, SortedMap.get?_alter_self (hissues.resolve_left (not_not.mpr hkey)), ← hkey, hw]
      rfl
    · rw [SortedMap.get?_alter_of_ne hkey, hw]
  have hmetric : metricPath (ofCheck check timeoutMillis suppressions c).threshold.metric =
      key :: rest := by
    rw [← hpath, ← metric_thresholdOf check c.config]
    rfl
  have hcounted : ¬((key :: rest == ["issues"] &&
      !(ofCheck check timeoutMillis suppressions c).summary.contains "issues") = true) := by
    intro hmissing
    obtain ⟨hkey, hnot⟩ := Bool.and_eq_true_iff.mp hmissing
    obtain ⟨rfl, -⟩ := List.cons.inj (beq_iff_eq.mp hkey)
    rw [SortedMap.contains_iff.mpr (SortedMap.mem_keys_of_get? hentry)] at hnot
    exact Bool.false_ne_true hnot
  unfold value metricValue
  dsimp only
  rw [hmetric, if_neg hcounted, valueAt_obj_cons, hentry, Option.bind_some, hrest]
  rfl

/-- **Which status a run has**: the one that its threshold gives for the entry of the summary that the
metric names. -/
theorem status_ofCheck (hrun : check.run c = .finished findings) (htime : check.delay < timeoutMillis)
    (hpath : metricPath check.threshold.metric = [key]) (hissues : key ≠ "issues")
    (hsuppressed : key ≠ "suppressed") (hget : findings.summary.get? key = some v) :
    (ofCheck check timeoutMillis suppressions c).status =
      (thresholdOf check c.config).status (metricNumber v) := by
  have hbody : execute check timeoutMillis c = .ok findings := by
    rw [execute, if_neg (not_le.mpr htime), hrun]
  have hvalue : valueAt (.obj findings.summary.entries) [key] = some v := by
    rw [valueAt_obj_cons, hget]
    rfl
  rw [status, failure_ofCheck_eq_none suppressions hbody,
    value_ofCheck hbody hpath hsuppressed (.inl hissues) hvalue]
  rfl

/-- A check that fails from one on, and whose bound the configuration leaves as it is, fails if it
counts anything, and also if it may take no time. -/
theorem status_ofCheck_eq_fail (hrun : check.run c = .finished findings)
    (hpath : metricPath check.threshold.metric = [key]) (hissues : key ≠ "issues")
    (hsuppressed : key ≠ "suppressed") (hget : findings.summary.get? key = some (.nat n))
    (hn : n ≠ 0) (hone : check.threshold.failIfGe = some 1.0)
    (hkept : (c.config.thresholds.get? check.id).bind (·.failIfGe) = none) :
    (ofCheck check timeoutMillis suppressions c).status = .fail := by
  have hfail : (thresholdOf check c.config).failIfGe = some 1.0 := by
    unfold thresholdOf
    cases hoverride : c.config.thresholds.get? check.id with
    | none => exact hone
    | some o =>
        rw [hoverride, Option.bind_some] at hkept
        simp [Threshold.override, hkept, hone]
  by_cases htime : check.delay < timeoutMillis
  · rw [status_ofCheck hrun htime hpath hissues hsuppressed hget, Threshold.status, hfail]
    have hcount : (1.0 : Float) ≤ metricNumber (.nat n) := Counts.one_le_ofNat hn
    simp [hcount]
  · exact status_of_failure (failure_ofCheck suppressions (.timedOut (not_lt.mp htime)))

/-! ## The bounds of the registry -/

/-- A check of the registry fails from one on, or warns of anything above zero. -/
structure IsPlain (t : Threshold) : Prop where
  passIfGe_eq : t.passIfGe = none
  failIfGe_eq : t.failIfGe = none ∨ t.failIfGe = some 1.0

theorem isPlain_threshold (hcheck : check ∈ Check.all) : IsPlain check.threshold := by
  revert check
  simp only [Check.all, List.forall_mem_cons, List.not_mem_nil, IsEmpty.forall_iff, implies_true,
    and_true]
  repeat' apply And.intro
  all_goals first | exact ⟨rfl, .inl rfl⟩ | exact ⟨rfl, .inr rfl⟩

/-- Zero passes, and every other number fails or warns. -/
theorem status_ofNat {t : Threshold} (h : IsPlain t) (n : Nat) :
    t.status (Float.ofNat n) =
      if n = 0 then .pass else if t.failIfGe.isSome then .fail else .warn := by
  rw [Threshold.status, h.passIfGe_eq]
  by_cases hn : n = 0
  · subst hn
    rcases h.failIfGe_eq with hfail | hfail
    · rw [hfail]
      decide +kernel
    · rw [hfail]
      decide +kernel
  · rcases h.failIfGe_eq with hfail | hfail
    · simp [hfail, hn, Counts.zero_lt_ofNat hn]
    · simp [hfail, hn, Counts.one_le_ofNat hn]

/-- A body that ends with findings has not run out of time. -/
theorem run_eq_of_execute_eq_ok (hbody : execute check timeoutMillis c = .ok findings) :
    check.run c = .finished findings := by
  unfold execute at hbody
  split_ifs at hbody
  split at hbody
  next hrun =>
    rw [hrun, Except.ok.inj hbody]
  all_goals cases hbody

/-! ## Status by counting -/

/-- What a check may be expected to do: it passes exactly if something holds, and otherwise it fails or
warns, as its threshold says. -/
structure PassesIff (check : Check) (run : Run) (quiet : Prop) : Prop where
  pass_iff : run.status = .pass ↔ quiet
  status_of_ne : run.status ≠ .pass →
    run.status = if check.threshold.failIfGe.isSome then .fail else .warn

theorem PassesIff.of_value {quiet : Prop} (hcheck : check ∈ Check.all)
    (hbody : execute check timeoutMillis c = .ok findings)
    (hthreshold : thresholdOf check c.config = check.threshold)
    (hvalue : (ofCheck check timeoutMillis suppressions c).value = Float.ofNat n)
    (hquiet : n = 0 ↔ quiet) :
    PassesIff check (ofCheck check timeoutMillis suppressions c) quiet := by
  have hstatus : (ofCheck check timeoutMillis suppressions c).status =
      if n = 0 then .pass else if check.threshold.failIfGe.isSome then .fail else .warn := by
    rw [status, failure_ofCheck_eq_none suppressions hbody, hvalue]
    change (thresholdOf check c.config).status (Float.ofNat n) = _
    rw [hthreshold, status_ofNat (isPlain_threshold hcheck)]
  constructor
  · rw [hstatus, ← hquiet]
    split_ifs <;> simp_all
  · rw [hstatus]
    split_ifs <;> simp_all

/-- The metric of a check that counts itself. -/
theorem value_ofCheck_of_gauges {quiet : Prop} (hbody : execute check timeoutMillis c = .ok findings)
    (h : Check.Gauges check findings.summary quiet) :
    ∃ n, (ofCheck check timeoutMillis suppressions c).value = Float.ofNat n ∧ (n = 0 ↔ quiet) := by
  obtain ⟨n, hvalue, hquiet⟩ := h.exists_count
  refine ⟨n, ?_, hquiet⟩
  cases hpath : metricPath check.threshold.metric with
  | nil =>
      rw [hpath] at hvalue
      cases hvalue
  | cons key rest =>
      have hkept := h.kept
      rw [hpath] at hvalue hkept
      exact value_ofCheck hbody hpath (by simpa using hkept) (.inr h.sorted) hvalue

/-- The metric of the names is the number of issues that the run reports. -/
theorem value_ofCheck_naming (hbody : execute Check.naming timeoutMillis c = .ok findings) :
    (ofCheck Check.naming timeoutMillis suppressions c).value =
      Float.ofNat (ofCheck Check.naming timeoutMillis suppressions c).issues.length := by
  set run := ofCheck Check.naming timeoutMillis suppressions c
  have hrun := run_eq_of_execute_eq_ok hbody
  have hnone : findings.summary.get? "issues" = none := by
    cases hrun
    rw [SortedMap.get?_ofList]
    rfl
  have hsorted : findings.summary.keys.Pairwise (· < ·) := by
    cases hrun
    exact SortedMap.pairwise_keys_ofList _
  have hentry : run.summary.get? "issues" = some (.nat run.issues.length) := by
    rw [summary_ofCheck suppressions hbody, SortedMap.insert, SortedMap.get?_alter_of_ne (by decide),
      SortedMap.insertIfNew, SortedMap.get?_alter_self hsorted, hnone]
    rfl
  have hpath : metricPath run.threshold.metric = ["issues"] := by
    have hmetric : run.threshold.metric = Check.naming.threshold.metric :=
      metric_thresholdOf Check.naming c.config
    rw [hmetric]
    rfl
  unfold value metricValue
  dsimp only
  rw [hpath, SortedMap.contains_iff.mpr (SortedMap.mem_keys_of_get? hentry), if_neg (by simp),
    valueAt_obj_cons, hentry]
  rfl

/-! ## What decides -/

/-- When the run of a check with findings passes. -/
structure IsGated (check : Check) (c : Context) (findings : Findings) (run : Run) : Prop where
  /-- Names: if the run reports no issue. -/
  naming : check.id = "naming" → PassesIff check run (run.issues = [])
  /-- Node references: if each one is safe. -/
  nodeRefs : check.id = "node_refs" →
    PassesIff check run (∀ s ∈ c.scripts, ∀ r ∈ s.facts.nodeRefs, r.safe = true)
  /-- The others: if the check finds no issue that its metric counts. -/
  others : check.id ≠ "naming" → check.id ≠ "node_refs" →
    PassesIff check run (∀ i ∈ findings.issues, Check.isGating check.id i = false)

/-- Each id is that of one check. -/
theorem eq_of_id_eq {other : Check} (hcheck : check ∈ Check.all) (hother : other ∈ Check.all)
    (hid : check.id = other.id) : check = other := by
  have hnodup : (Check.all.map (·.id)).Nodup := by decide +kernel
  exact List.inj_on_of_nodup_map hnodup hcheck hother hid

/-- **What decides whether a check passes**: what its metric counts, silenced or not, and for the names
alone the issues that are left. -/
theorem ofCheck_isGated (hcheck : check ∈ Check.all)
    (hbody : execute check timeoutMillis c = .ok findings)
    (hthreshold : thresholdOf check c.config = check.threshold) (suppressions : Suppressions) :
    IsGated check c findings (ofCheck check timeoutMillis suppressions c) := by
  have hrun := run_eq_of_execute_eq_ok hbody
  refine ⟨fun hid => ?_, fun hid => ?_, fun hnaming hnodeRefs => ?_⟩
  · obtain rfl : check = Check.naming := eq_of_id_eq hcheck (by simp [Check.all]) hid
    exact .of_value hcheck hbody hthreshold (value_ofCheck_naming hbody) List.length_eq_zero_iff
  · obtain rfl : check = Check.nodeRefs := eq_of_id_eq hcheck (by simp [Check.all]) hid
    obtain ⟨n, hvalue, hquiet⟩ := value_ofCheck_of_gauges hbody (Check.gauges_nodeRefs hrun)
    exact .of_value hcheck hbody hthreshold hvalue hquiet
  · obtain ⟨n, hvalue, hquiet⟩ := value_ofCheck_of_gauges hbody
      (Check.gauges_of_mem hcheck hnaming hnodeRefs hrun)
    exact .of_value hcheck hbody hthreshold hvalue hquiet

/-! ## A silenced issue -/

/-- A script that changes the state where it may not, and says that this is all right. -/
def excused : Context :=
  { project := .ofFiles {} [("ui/a.gd", "func f():\n\tstate.gold = 1 # gdscan:ignore *\n")] }

/-- Every change where it may not be is counted and reported. -/
theorem get?_violations (hrun : Check.stateMutation.run c = .finished findings) :
    findings.summary.get? "violations" = some (.nat findings.issues.length) := by
  cases hrun
  rw [SortedMap.get?_ofList, List.length_map]
  rfl

theorem ofCheck_isGated_excused : Check.stateMutation ∈ Check.all ∧
    thresholdOf Check.stateMutation excused.config = Check.stateMutation.threshold ∧
    ∃ findings, execute Check.stateMutation 60000 excused = .ok findings ∧
      IsGated Check.stateMutation excused findings (single Check.stateMutation 60000 excused) := by
  have hcheck : Check.stateMutation ∈ Check.all := by simp [Check.all]
  exact ⟨hcheck, rfl, _, rfl, ofCheck_isGated hcheck rfl rfl _⟩

/-- A check whose only issue is silenced reports none, and fails. -/
theorem status_stateMutation_excused : Check.stateMutation ∈ Check.all ∧
    thresholdOf Check.stateMutation excused.config = Check.stateMutation.threshold ∧
    (∃ findings, execute Check.stateMutation 60000 excused = .ok findings) ∧
    (single Check.stateMutation 60000 excused).issues = [] ∧
    (single Check.stateMutation 60000 excused).status = .fail := by
  refine ⟨by simp [Check.all], rfl, ⟨_, rfl⟩, ?_, ?_⟩
  · have hkept : (reported Check.stateMutation 60000 excused).filter
        (fun i => !(suppressionsOf excused.project).silences i) = [] := by
      decide +kernel
    rw [single, issues_ofCheck, hkept]
    simp [stableSort, dropRepeats]
  · obtain ⟨findings, hrun⟩ : ∃ findings, Check.stateMutation.run excused = .finished findings :=
      ⟨_, rfl⟩
    have hfound : findings.issues.length ≠ 0 := by
      cases hrun
      decide +kernel
    exact status_ofCheck_eq_fail hrun rfl (by decide) (by decide) (get?_violations hrun) hfound rfl rfl

end GodotLint.Run
