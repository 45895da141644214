import GodotLint.Check.Autoloads
import GodotLint.Proofs.Graph.Cutoff
import GodotLint.Proofs.Graph.LoadOrder

/-!
# Cycles of singletons and their load order

Two computations look at which singleton uses which: the index orders the names, and the check
searches the graph of the singletons for cycles. The index has the uses by name, where the last
singleton of a name counts; the graph has those of all. If no name is declared twice both see the same
uses (`dependsOn_iff`), so the order is complete exactly if no cycle is reported. A name that is
declared twice is placed once, and then the order is never complete (`compute_snd_eq_false_iff`).
-/

namespace GodotLint.Check

variable {singletons : List AutoloadEntry} {x y : String}

/-! ## Which singleton uses which -/

/-- The names of singletons, in the order of declaration. -/
def namesOf (singletons : List AutoloadEntry) : List String := singletons.map (·.name)

/-- Every singleton uses others only, and only declared ones. -/
def UseOthers (singletons : List AutoloadEntry) : Prop :=
  ∀ a ∈ singletons, ∀ dep ∈ a.deps, dep ≠ a.name ∧ dep ∈ namesOf singletons

/-- The singletons of an index use others only. -/
theorem useOthers_autoloadEntries (scripts : List Script) (scenes : List Scene)
    (files : List String) (settings : Settings) :
    UseOthers (Index.autoloadEntries scripts scenes files settings) := by
  intro a ha dep hdep
  obtain ⟨decl, hdecl, rfl⟩ := List.mem_map.mp ha
  have hnames : namesOf (Index.autoloadEntries scripts scenes files settings) =
      settings.autoloads.map (·.name) := by
    rw [namesOf, Index.autoloadEntries, List.map_map]
    rfl
  unfold Index.autoloadEntry at hdep
  simp only [mem_sortedSet, List.mem_flatMap, List.mem_filter, Bool.and_eq_true, bne_iff_ne,
    List.contains_iff_mem] at hdep
  obtain ⟨s, -, -, hother, hknown⟩ := hdep
  exact ⟨hother, hnames ▸ hknown⟩

/-- The steps in which the graph of singletons is built. -/
def autoloadSteps (singletons : List AutoloadEntry) : List Graph.Step :=
  singletons.flatMap fun a =>
    .node a.name :: a.deps.map fun dep => .edge ⟨a.name, dep, .load, a.decl.line⟩

theorem autoloadGraph_eq_ofSteps (singletons : List AutoloadEntry) :
    autoloadGraph singletons = Graph.ofSteps (autoloadSteps singletons) := by
  rw [Graph.ofSteps, autoloadSteps, List.foldl_flatMap]
  simp only [List.foldl_cons, List.foldl_map]
  rfl

/-- In the graph one name depends on another if some singleton of the one name uses the other. -/
theorem hasEdge_autoloadGraph_iff : (autoloadGraph singletons).hasEdge x y = true ↔
    ∃ a ∈ singletons, a.name = x ∧ y ∈ a.deps := by
  rw [autoloadGraph_eq_ofSteps, Graph.hasEdge_ofSteps_iff]
  simp only [autoloadSteps, List.mem_flatMap, List.mem_cons, List.mem_map, reduceCtorEq, false_or]
  constructor
  · rintro ⟨e, ⟨a, ha, dep, hdep, he⟩, rfl, rfl⟩
    cases he
    exact ⟨a, ha, rfl, hdep⟩
  · rintro ⟨a, ha, rfl, hy⟩
    exact ⟨_, ⟨a, ha, y, hy, rfl⟩, rfl, rfl⟩

/-- Where no name is declared twice, the order and the graph have the same uses. -/
theorem dependsOn_iff (hnodup : (namesOf singletons).Nodup) (hothers : UseOthers singletons) :
    LoadOrder.DependsOn (namesOf singletons) (Index.autoloadDependencies singletons) x y ↔
      (autoloadGraph singletons).hasEdge x y = true := by
  have hget : ∀ a ∈ singletons,
      (Index.autoloadDependencies singletons).get? a.name = some a.deps := by
    intro a ha
    refine SortedMap.get?_ofList_of_mem ?_ (List.mem_map_of_mem ha)
    rw [List.map_map]
    exact hnodup
  rw [hasEdge_autoloadGraph_iff]
  constructor
  · rintro ⟨hsource, -, hrecorded⟩
    obtain ⟨a, ha, rfl⟩ := List.mem_map.mp hsource
    rw [hget a ha] at hrecorded
    exact ⟨a, ha, rfl, hrecorded⟩
  · rintro ⟨a, ha, rfl, hy⟩
    refine ⟨List.mem_map_of_mem ha, (hothers a ha y hy).2, ?_⟩
    rw [hget a ha]
    exact hy

/-! ## Agreement -/

/-- The check searches deep enough to meet every cycle of singletons. -/
theorem cycles_autoloadGraph_ne_nil_iff (hothers : UseOthers singletons) :
    (autoloadGraph singletons).cycles (max singletons.length 2) ≠ [] ↔
      ∃ x, (autoloadGraph singletons).Reaches x x := by
  have hordered : (autoloadGraph singletons).IsOrdered := by
    rw [autoloadGraph_eq_ofSteps]
    exact Graph.isOrdered_ofSteps _
  have hself : ∀ x, (autoloadGraph singletons).hasEdge x x = false := by
    intro x
    rw [Bool.eq_false_iff, Ne, hasEdge_autoloadGraph_iff]
    rintro ⟨a, ha, rfl, hself⟩
    exact (hothers a ha _ hself).1 rfl
  have hnames : ∀ x y, (autoloadGraph singletons).hasEdge x y = true → x ∈ namesOf singletons := by
    intro x y h
    obtain ⟨a, ha, rfl, -⟩ := hasEdge_autoloadGraph_iff.mp h
    exact List.mem_map_of_mem ha
  refine Graph.cycles_ne_nil_iff hordered hself hnames ?_
  rw [namesOf, List.length_map]
  exact le_max_left ..

/-- **When the order is not complete**: the check reports a cycle, or a name is declared twice. -/
theorem compute_snd_eq_false_iff (hothers : UseOthers singletons) :
    (LoadOrder.compute (namesOf singletons) (Index.autoloadDependencies singletons)).2 = false ↔
      (autoloadGraph singletons).cycles (max singletons.length 2) ≠ [] ∨
        ¬ (namesOf singletons).Nodup := by
  rw [← Bool.not_eq_true, LoadOrder.complete_iff, not_and_or, or_comm,
    cycles_autoloadGraph_ne_nil_iff hothers]
  by_cases hnodup : (namesOf singletons).Nodup
  · have hsame : LoadOrder.DependsOn (namesOf singletons) (Index.autoloadDependencies singletons) =
        fun x y => (autoloadGraph singletons).hasEdge x y = true := by
      funext x y
      exact propext (dependsOn_iff hnodup hothers)
    rw [hsame, not_forall_not]
    rfl
  · simp [hnodup]

/-! ## The report -/

/-- The entries of the summary that tell of the load order. -/
theorem exists_findings_autoloads (c : Context) : ∃ findings, autoloads.run c = .finished findings ∧
    findings.summary.get? "circular" =
      some (.strs ((autoloadCycles c.index).map cycleLabel)) ∧
    findings.summary.get? "load_order" = some (.strs c.index.autoloadOrder) ∧
    findings.summary.get? "order_complete" = some (.bool c.index.autoloadOrderComplete) := by
  refine ⟨_, rfl, ?_, ?_, ?_⟩
  · rw [SortedMap.get?_ofList]
    rfl
  · rw [SortedMap.get?_ofList]
    rfl
  · rw [SortedMap.get?_ofList]
    rfl

/-- What the check reports of the order in which the singletons of a project are loaded; `cycles` are
the reported cycles. -/
structure IsLoadReport (p : Project) (settings : Settings) (findings : Findings)
    (cycles : List String) : Prop where
  circular : findings.summary.get? "circular" = some (.strs cycles)
  load_order : findings.summary.get? "load_order" = some (.strs p.index.autoloadOrder)
  order_complete : findings.summary.get? "order_complete" =
    some (.bool p.index.autoloadOrderComplete)
  incomplete_iff : p.index.autoloadOrderComplete = false ↔
    cycles ≠ [] ∨ ¬ (settings.autoloads.map (·.name)).Nodup
  /-- Every declared name is loaded. -/
  declared : ∀ decl ∈ settings.autoloads, decl.name ∈ p.index.autoloadOrder

/-- **The load order and the reported cycles agree up to repeated names**: in a project with settings
the order is complete exactly if no cycle is reported and no name is declared twice. -/
theorem autoloads_isLoadReport {root : String} {config : Config} {sources : List Source}
    {documents : List Project.Document} {files : List String} {faults : List FileFault}
    {settings : Settings} (options : Options)
    (h : (Project.assemble root config sources documents files faults).settings = some settings) :
    ∃ findings cycles,
      autoloads.run ⟨Project.assemble root config sources documents files faults, options⟩ =
        .finished findings ∧
      IsLoadReport (Project.assemble root config sources documents files faults) settings findings
        cycles := by
  generalize hp : Project.assemble root config sources documents files faults = p at h ⊢
  have hindex : p.index = .build p.scripts p.scenes p.data p.settings p.files := by
    subst hp
    rfl
  have hentries : p.index.autoloads =
      Index.autoloadEntries p.scripts p.scenes p.files settings := by
    rw [hindex, h]
    rfl
  have hnames : namesOf p.index.autoloads = settings.autoloads.map (·.name) := by
    rw [hentries, namesOf, Index.autoloadEntries, List.map_map]
    rfl
  have horder : p.index.autoloadOrder = (LoadOrder.compute (namesOf p.index.autoloads)
      (Index.autoloadDependencies p.index.autoloads)).1 := by
    rw [hindex]
    rfl
  have hcomplete : p.index.autoloadOrderComplete = (LoadOrder.compute
      (namesOf p.index.autoloads) (Index.autoloadDependencies p.index.autoloads)).2 := by
    rw [hindex]
    rfl
  have hothers : UseOthers p.index.autoloads := by
    rw [hentries]
    exact useOthers_autoloadEntries p.scripts p.scenes p.files settings
  obtain ⟨findings, hrun, hcircular, hload, hflag⟩ := exists_findings_autoloads ⟨p, options⟩
  refine ⟨findings, (autoloadCycles p.index).map cycleLabel, hrun, hcircular, hload, hflag, ?_, ?_⟩
  · rw [hcomplete, compute_snd_eq_false_iff hothers, hnames, Ne, Ne, List.map_eq_nil_iff,
      autoloadCycles, List.map_eq_nil_iff]
  · intro decl hdecl
    rw [horder]
    refine LoadOrder.mem_compute_fst ?_
    rw [hnames]
    exact List.mem_map_of_mem hdecl

/-- Two singletons that use each other. -/
def circle : Project := .ofFiles {}
  [("a.gd", "func f():\n\tB.g()\n"), ("b.gd", "func g():\n\tA.f()\n"),
    ("project.godot", "[autoload]\nA=\"*res://a.gd\"\nB=\"*res://b.gd\"\n")]

theorem autoloads_isLoadReport_circle : ∃ settings, circle.settings = some settings ∧
    settings.autoloads.map (·.name) = ["A", "B"] ∧ circle.index.autoloadOrderComplete = false ∧
    ∃ findings cycles, autoloads.run ⟨circle, {}⟩ = .finished findings ∧
      IsLoadReport circle settings findings cycles := by
  have hnames : circle.settings.map (fun s => s.autoloads.map (·.name)) = some ["A", "B"] := by
    decide +kernel
  have hcomplete : circle.index.autoloadOrderComplete = false := by decide +kernel
  obtain ⟨settings, h, hnames⟩ := Option.map_eq_some_iff.mp hnames
  exact ⟨settings, h, hnames, hcomplete, autoloads_isLoadReport {} h⟩

/-- A singleton that is declared twice. -/
def declaredTwice : Project := .ofFiles {}
  [("a.gd", "pass\n"), ("project.godot", "[autoload]\nA=\"*res://a.gd\"\nA=\"*res://a.gd\"\n")]

/-- A repeated declaration alone makes the order incomplete, with no cycle to report. -/
theorem autoloads_incomplete_of_repetition : declaredTwice.settings.isSome = true ∧
    ∃ findings, autoloads.run ⟨declaredTwice, {}⟩ = .finished findings ∧
      findings.summary.get? "order_complete" = some (.bool false) ∧
      findings.summary.get? "circular" = some (.strs []) := by
  have hsettings : declaredTwice.settings.isSome = true := by decide +kernel
  have hcycles : autoloadCycles declaredTwice.index = [] := by decide +kernel
  have hcomplete : declaredTwice.index.autoloadOrderComplete = false := by decide +kernel
  obtain ⟨findings, hrun, hcircular, -, hflag⟩ := exists_findings_autoloads ⟨declaredTwice, {}⟩
  refine ⟨hsettings, findings, hrun, ?_, ?_⟩
  · exact hflag.trans (congrArg (fun b => some (Json.bool b)) hcomplete)
  · exact hcircular.trans (congrArg (fun cs => some (Json.strs (cs.map cycleLabel))) hcycles)

end GodotLint.Check
