import GodotLint.Check.Dependencies
import GodotLint.Proofs.Graph.Cutoff
import GodotLint.Proofs.Index.Imports
import GodotLint.Proofs.Run.Status
import GodotLint.Proofs.Text.Lines

/-!
# Scripts that import each other

Two scripts that import each other are a cycle of two nodes of the graph of imports. The check reports
it as an error exactly if it is not behind the cut of the search (`cyclicImports_isPairReport`), in
particular whenever the cycles of the graph have at most as many sets of nodes as the search takes, and
a check that reports one fails. In a crowd of scripts the cut can hide it
(`cyclicImports_misses_pair`).
-/

namespace GodotLint.Check

variable {g : Graph} {cycles : List (List String)} {a b : String} {c : Context}

/-! ## Reports of cycles -/

/-- The issue that two scripts import each other, of which `a` is the lesser one. -/
structure IsDirectCycle (a b : String) (i : Issue) : Prop where
  check : i.check = "cyclic_imports"
  kind : i.kind = "direct_cycle"
  severity : i.severity = .error
  file : i.file = a
  message : i.message = "import cycle of length 2: " ++ joinWith " -> " [a, b, a]

theorem isDirectCycle_cycleIssue (g : Graph) (a b : String) :
    IsDirectCycle a b (cycleIssue g [a, b]) := by
  refine ⟨rfl, rfl, rfl, rfl, ?_⟩
  have hprefix : "import cycle of length " ++ toString 2 ++ ": " = "import cycle of length 2: " := by
    decide
  exact congrArg (· ++ joinWith " -> " [a, b, a]) hprefix

/-- The message names the scripts. -/
theorem IsDirectCycle.eq_of_cycleIssue {x y : String}
    (h : IsDirectCycle a b (cycleIssue g [x, y])) : x = a ∧ y = b := by
  obtain rfl : x = a := h.file
  have hmessage := (isDirectCycle_cycleIssue g x y).message.symm.trans h.message
  refine ⟨rfl, ?_⟩
  simpa [joinWith, String.ext_iff] using hmessage

/-- Two scripts are reported exactly if their cycle is one of those that are found. -/
theorem exists_isDirectCycle_iff :
    (∃ i ∈ cycles.map (cycleIssue g), IsDirectCycle a b i) ↔ [a, b] ∈ cycles := by
  constructor
  · rintro ⟨i, hi, hdirect⟩
    obtain ⟨c, hc, rfl⟩ := List.mem_map.mp hi
    have hlength : c.length = 2 := by
      by_contra hlength
      have hkind := hdirect.kind
      simp [cycleIssue, hlength] at hkind
    obtain ⟨x, y, rfl⟩ := List.length_eq_two.mp hlength
    obtain ⟨rfl, rfl⟩ := hdirect.eq_of_cycleIssue
    exact hc
  · intro hc
    exact ⟨_, List.mem_map_of_mem hc, isDirectCycle_cycleIssue g a b⟩

/-! ## What is reported -/

/-- How long a cycle of imports may be to be looked for. -/
def importDepth (c : Context) : Nat := c.limit c.config.cycleDepth

/-- The check finishes with one issue for each cycle, and counts those of two scripts. -/
theorem exists_findings_cyclicImports (c : Context) : ∃ findings,
    cyclicImports.run c = .finished findings ∧
      findings.issues =
        (c.index.imports.cycles (importDepth c)).map (cycleIssue c.index.imports) ∧
      findings.summary.get? "direct_cycles" =
        some (countOf (·.length = 2) (c.index.imports.cycles (importDepth c))) := by
  refine ⟨_, rfl, rfl, ?_⟩
  rw [SortedMap.get?_ofList]
  rfl

/-- Scripts that import each other are reported exactly if fewer sets of nodes than the limit come
before them. -/
theorem exists_isDirectCycle_iff_lt {findings : Findings} (hg : c.index.imports.IsOrdered)
    (hrun : cyclicImports.run c = .finished findings) (hab : a < b)
    (h : c.index.imports.hasEdge a b = true) (h' : c.index.imports.hasEdge b a = true)
    (hdepth : 2 ≤ importDepth c) : (∃ i ∈ findings.issues, IsDirectCycle a b i) ↔
      (c.index.imports.setsBefore (importDepth c) [a, b]).encard < Graph.cycleLimit := by
  obtain ⟨_, hrun', hissues, -⟩ := exists_findings_cyclicImports c
  cases hrun.symm.trans hrun'
  rw [hissues, exists_isDirectCycle_iff]
  exact Graph.pair_mem_cycles_iff hg hab h h' hdepth

variable {root : String} {config : Config} {sources : List Source}
  {documents : List Project.Document} {files : List String} {faults : List FileFault}

/-- The graph of imports of a project is in order. -/
theorem isOrdered_imports_assemble :
    (Project.assemble root config sources documents files faults).index.imports.IsOrdered :=
  Index.isOrdered_imports

/-- In a project, too, a line is enough to tell of an import. -/
theorem hasEdge_assemble_of_line {source : Source} {raw : List Char} {target : String}
    (hsource : source ∈ sources) (ha : source.path = a) (hraw : raw ∈ source.lines)
    (htarget : target ∈ (Script.loadsOfLine [] raw 0).map (·.target))
    (hpath : Path.resolveString? a target = some b) (hb : b ∈ sources.map (·.path)) (hne : b ≠ a) :
    (Project.assemble root config sources documents files faults).index.imports.hasEdge a b =
      true := by
  subst ha
  exact Index.hasEdge_imports_of_line hsource hraw htarget hpath hb hne

/-- What the check says of two scripts that import each other. -/
structure IsPairReport (c : Context) (a b : String) (findings : Findings) : Prop where
  /-- They are reported up to the cut. -/
  reported_iff : (∃ i ∈ findings.issues, IsDirectCycle a b i) ↔
    (c.index.imports.setsBefore (importDepth c) [a, b]).encard < Graph.cycleLimit
  /-- Nothing is cut off where there are few cycles. -/
  reported_of_few : (c.index.imports.cycleSets (importDepth c)).encard ≤ Graph.cycleLimit →
    ∃ i ∈ findings.issues, IsDirectCycle a b i
  counted : (∃ i ∈ findings.issues, IsDirectCycle a b i) →
    ∃ n, 1 ≤ n ∧ findings.summary.get? "direct_cycles" = some (.nat n)
  fails : (∃ i ∈ findings.issues, IsDirectCycle a b i) →
    (c.config.thresholds.get? "cyclic_imports").bind (·.failIfGe) = none →
      ∀ timeoutMillis suppressions,
        (Run.ofCheck cyclicImports timeoutMillis suppressions c).status = .fail

/-- **Scripts that import each other are reported up to the cut**, whatever scripts a project has and
however long the cycles are that are looked for. -/
theorem cyclicImports_isPairReport {options : Options}
    (hc : c = ⟨Project.assemble root config sources documents files faults, options⟩)
    (hab : a < b) (h : c.index.imports.hasEdge a b = true)
    (h' : c.index.imports.hasEdge b a = true) (hdepth : 2 ≤ importDepth c) :
    ∃ findings, cyclicImports.run c = .finished findings ∧ IsPairReport c a b findings := by
  have hordered : c.index.imports.IsOrdered := by
    subst hc
    exact isOrdered_imports_assemble
  obtain ⟨findings, hrun, hissues, hcount⟩ := exists_findings_cyclicImports c
  have hreported := exists_isDirectCycle_iff_lt hordered hrun hab h h' hdepth
  have hpositive : (∃ i ∈ findings.issues, IsDirectCycle a b i) →
      0 < (c.index.imports.cycles (importDepth c)).countP (·.length = 2) := by
    rw [hissues, exists_isDirectCycle_iff]
    intro hmem
    exact List.countP_pos_iff.mpr ⟨[a, b], hmem, rfl⟩
  refine ⟨findings, hrun, hreported, ?_, ?_, ?_⟩
  · intro hfew
    exact hreported.mpr (Graph.encard_setsBefore_pair_lt hab h h' hdepth hfew)
  · intro hissue
    exact ⟨_, hpositive hissue, hcount⟩
  · intro hissue hkept timeoutMillis suppressions
    have hmetric : metricPath cyclicImports.threshold.metric = ["direct_cycles"] := by
      decide +kernel
    exact Run.status_ofCheck_eq_fail hrun hmetric (by decide) (by decide) hcount
      (hpositive hissue).ne' rfl hkept

/-- Two scripts that load each other. -/
def partners (config : Config) : Project := .ofFiles config
  [("a.gd", "const B = preload(\"res://b.gd\")\n"), ("b.gd", "const A = preload(\"res://a.gd\")\n")]

theorem hasEdge_partners (config : Config) :
    (partners config).index.imports.hasEdge "a.gd" "b.gd" = true ∧
      (partners config).index.imports.hasEdge "b.gd" "a.gd" = true := by
  have hindex : (partners config).index.imports = (partners {}).index.imports := rfl
  rw [hindex]
  decide +kernel

theorem cyclicImports_isPairReport_partners :
    (partners {}).index.imports.hasEdge "a.gd" "b.gd" = true ∧
    (partners {}).index.imports.hasEdge "b.gd" "a.gd" = true ∧
    (∃ findings, cyclicImports.run ⟨partners {}, {}⟩ = .finished findings ∧
      IsPairReport ⟨partners {}, {}⟩ "a.gd" "b.gd" findings ∧
      ∃ i ∈ findings.issues, IsDirectCycle "a.gd" "b.gd" i) ∧
    (Run.single cyclicImports 60000 ⟨partners {}, {}⟩).status = .fail := by
  obtain ⟨h, h'⟩ := hasEdge_partners {}
  obtain ⟨findings, hrun, hreport⟩ := cyclicImports_isPairReport (c := ⟨partners {}, {}⟩) rfl
    (by decide) h h' (by decide)
  obtain ⟨_, hrun', hissues, -⟩ := exists_findings_cyclicImports ⟨partners {}, {}⟩
  cases hrun.symm.trans hrun'
  have hissue : ∃ i ∈ findings.issues, IsDirectCycle "a.gd" "b.gd" i := by
    have hcycles : ["a.gd", "b.gd"] ∈ (partners {}).index.imports.cycles 10 := by decide +kernel
    rw [hissues, exists_isDirectCycle_iff]
    exact hcycles
  exact ⟨h, h', ⟨findings, hrun, hreport, hissue⟩, hreport.fails hissue rfl _ _⟩

/-! ## Scripts that are not reported -/

/-- The scripts of a crowd between the first and the last one. -/
def crowdMiddle : List String :=
  ["b.gd", "c.gd", "d.gd", "e.gd", "f.gd", "g.gd", "h.gd", "i.gd", "j.gd", "k.gd", "l.gd", "m.gd",
    "n.gd"]

/-- The scripts of a crowd. -/
def crowdNames : List String := "a.gd" :: crowdMiddle ++ ["o.gd"]

/-- What a script of the crowd loads: all that come after it, and the last one loads the first. -/
def crowdLoads (name : String) : List String :=
  if name = "o.gd" then ["a.gd"] else crowdNames.filter (name < ·)

/-- The line that loads a script. -/
def loadLine (name : String) : List Char := ("\tload(\"res://" ++ name ++ "\")").toList

/-- The text of a script of the crowd. -/
def crowdText (name : String) : List Char :=
  ("func f():".toList :: (crowdLoads name).map loadLine).flatMap (· ++ ['\n'])

/-- The sources of the crowd. -/
def crowdSources : List Source := crowdNames.map fun name => .ofText name (crowdText name)

/-- Fifteen scripts of which each loads all that come after it, and the last one loads the first. -/
def crowd : Project := .assemble "." {} crowdSources [] crowdNames []

theorem hasEdge_crowd {name other : String} (hname : name ∈ crowdNames)
    (hother : other ∈ crowdLoads name) : crowd.index.imports.hasEdge name other = true := by
  have hloads : ∀ x ∈ crowdNames, ∀ y ∈ crowdLoads x, y ∈ crowdNames ∧ y ≠ x ∧
      Path.resolveString? x ("res://" ++ y) = some y := by decide +kernel
  have hlines : ∀ y ∈ crowdNames, '\n' ∉ loadLine y ∧
      Text.dropCarriageReturn (loadLine y) = loadLine y ∧
      "res://" ++ y ∈ (Script.loadsOfLine [] (loadLine y) 0).map (·.target) := by decide +kernel
  obtain ⟨hmem, hne, hpath⟩ := hloads name hname other hother
  obtain ⟨-, hkept, htarget⟩ := hlines other hmem
  have htext : Text.lines (crowdText name) =
      ("func f():".toList :: (crowdLoads name).map loadLine).map Text.dropCarriageReturn := by
    refine Text.lines_flatMap_feed (List.forall_mem_cons.mpr ⟨by decide, ?_⟩)
    intro l hl
    obtain ⟨y, hy, rfl⟩ := List.mem_map.mp hl
    exact (hlines y (hloads name hname y hy).1).1
  have hsource : Source.ofText name (crowdText name) ∈ crowdSources := List.mem_map_of_mem hname
  have hraw : loadLine other ∈ (Source.ofText name (crowdText name)).lines := by
    change loadLine other ∈ Text.lines (crowdText name)
    rw [htext]
    exact List.mem_map.mpr ⟨_, List.mem_cons_of_mem _ (List.mem_map_of_mem hother), hkept⟩
  have hpaths : other ∈ crowdSources.map (·.path) := by
    rw [crowdSources, List.map_map]
    exact List.mem_map.mpr ⟨other, hmem, rfl⟩
  exact hasEdge_assemble_of_line hsource rfl hraw htarget hpath hpaths hne

theorem isCrowd_crowd : crowd.index.imports.IsCrowd "a.gd" crowdMiddle "o.gd" := by
  have hpairwise : crowdNames.Pairwise (· < ·) := by decide +kernel
  have hafter : crowdNames.Pairwise fun x y => y ∈ crowdLoads x := by decide +kernel
  refine ⟨hpairwise, hafter.imp_of_mem ?_, hasEdge_crowd (by decide) (by decide)⟩
  intro x y hx _ hy
  exact hasEdge_crowd hx hy

/-- A configuration under which the check fails from five pairs on. -/
def lenient : Config := { thresholds := .ofList [("cyclic_imports", { failIfGe := some 5.0 })] }

/-- Scripts that import each other may be left out, and where a configuration sets another bound the
check need not fail. -/
theorem cyclicImports_misses_pair :
    (crowd.index.imports.hasEdge "a.gd" "o.gd" = true ∧
      crowd.index.imports.hasEdge "o.gd" "a.gd" = true ∧ 2 ≤ importDepth ⟨crowd, {}⟩ ∧
      ∃ findings, cyclicImports.run ⟨crowd, {}⟩ = .finished findings ∧
        ¬ ∃ i ∈ findings.issues, IsDirectCycle "a.gd" "o.gd" i) ∧
    ((partners lenient).index.imports.hasEdge "a.gd" "b.gd" = true ∧
      (partners lenient).index.imports.hasEdge "b.gd" "a.gd" = true ∧
      2 ≤ importDepth ⟨partners lenient, {}⟩ ∧
      (Run.single cyclicImports 60000 ⟨partners lenient, {}⟩).status = .warn) := by
  have hforward : crowd.index.imports.hasEdge "a.gd" "o.gd" = true :=
    hasEdge_crowd (by decide) (by decide +kernel)
  have hback : crowd.index.imports.hasEdge "o.gd" "a.gd" = true := isCrowd_crowd.back
  have hordered : crowd.index.imports.IsOrdered := isOrdered_imports_assemble
  obtain ⟨h, h'⟩ := hasEdge_partners lenient
  refine ⟨⟨hforward, hback, by decide, ?_⟩, h, h', by decide, by decide +kernel⟩
  obtain ⟨findings, hrun, -⟩ := exists_findings_cyclicImports ⟨crowd, {}⟩
  refine ⟨findings, hrun, ?_⟩
  rw [exists_isDirectCycle_iff_lt (c := ⟨crowd, {}⟩) hordered hrun (by decide) hforward hback
    (by decide), not_lt]
  have hchoices : (Graph.cycleLimit : ℕ∞) ≤ (crowdMiddle.length.choose 6 : ℕ∞) := by
    have hcount : Graph.cycleLimit ≤ crowdMiddle.length.choose 6 := by decide +kernel
    exact_mod_cast hcount
  exact hchoices.trans (isCrowd_crowd.choose_le_encard (by norm_num) (by decide))

end GodotLint.Check
