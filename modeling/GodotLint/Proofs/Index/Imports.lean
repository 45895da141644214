import GodotLint.Index.Basic
import GodotLint.Proofs.Graph.Cycle
import GodotLint.Proofs.Ordering
import GodotLint.Proofs.Text.Lines

/-!
# The graph of imports

The index builds its graph of imports script by script (`imports_build`), so it is in order, and one
script depends on another exactly if it loads it or extends a class that the other declares
(`hasEdge_imports_iff`). A line of a script is enough to tell of a dependency
(`hasEdge_imports_of_line`).
-/

namespace GodotLint

namespace Index

variable {scripts : List Script} {scenes : List Scene} {data : List DataFile}
  {settings : Option Settings} {files paths : List String} {classes : SortedMap ClassEntry}
  {a b : String}

/-! ## Loads -/

/-- A load is broken if its path is none of the scripts and none of the files. -/
theorem loadTarget_eq_missing_iff {file : String} {load : Load} :
    loadTarget paths files file load = .missing ↔
      ∃ path, Path.resolveString? file load.target = some path ∧ path ∉ paths ∧ path ∉ files := by
  rw [loadTarget]
  cases Path.resolveString? file load.target with
  | none => simp
  | some path =>
      by_cases hscript : path ∈ paths
      · simp [hscript]
      · by_cases hfile : path ∈ files <;> simp [hscript, hfile]

/-! ## The steps of building -/

/-- The dependency that a load of a script makes. -/
def loadEdge? (paths files : List String) (file : String) (load : Load) : Option Edge :=
  match loadTarget paths files file load with
  | .script path => if path == file then none else some ⟨file, path, load.kind, load.line⟩
  | _ => none

/-- The dependency that a base makes: a class of another script. -/
def baseEdge? (classes : SortedMap ClassEntry) (file : String) (base : Extends) : Option Edge :=
  if base.isPath then none
  else (classes.get? base.target).bind fun entry =>
    if entry.file == file then none else some ⟨file, entry.file, .extends, base.line⟩

/-- The dependencies of a script: of its loads, and of its base. -/
def importEdges (paths files : List String) (classes : SortedMap ClassEntry) (s : Script) :
    List Edge :=
  s.facts.loads.filterMap (loadEdge? paths files s.path) ++
    (s.facts.base.bind (baseEdge? classes s.path)).toList

/-- The steps in which a script is added to the graph of imports. -/
def importSteps (paths files : List String) (classes : SortedMap ClassEntry) (s : Script) :
    List Graph.Step :=
  .node s.path :: (importEdges paths files classes s).map .edge

/-- What a load adds to the graph. -/
def addLoad (paths files : List String) (file : String) (g : Graph) (load : Load) : Graph :=
  match loadTarget paths files file load with
  | .script path => if path == file then g else g.addEdge ⟨file, path, load.kind, load.line⟩
  | _ => g

theorem addLoad_eq (paths files : List String) (file : String) (g : Graph) (load : Load) :
    addLoad paths files file g load = (loadEdge? paths files file load).elim g g.addEdge := by
  unfold addLoad loadEdge?
  split
  · split_ifs <;> rfl
  · rfl

/-- What a base adds to the graph. -/
def addBase (classes : SortedMap ClassEntry) (file : String) (base : Option Extends) (g : Graph) :
    Graph :=
  match base with
  | some base =>
    match base.isPath, classes.get? base.target with
    | false, some entry =>
      if entry.file == file then g else g.addEdge ⟨file, entry.file, .extends, base.line⟩
    | _, _ => g
  | none => g

theorem addBase_eq (classes : SortedMap ClassEntry) (file : String) (base : Option Extends)
    (g : Graph) : addBase classes file base g =
      ((base.bind (baseEdge? classes file)).toList.map Graph.Step.edge).foldl Graph.take g := by
  unfold addBase baseEdge?
  cases base with
  | none => rfl
  | some base =>
      cases hpath : base.isPath with
      | true => simp [hpath]
      | false =>
          cases hclass : classes.get? base.target with
          | none => simp [hpath, hclass]
          | some entry => by_cases hfile : entry.file = file <;>
              simp [hpath, hclass, hfile, Graph.take]

theorem addImports_eq_foldl (g : Graph) (s : Script) :
    addImports paths files classes g s = (importSteps paths files classes s).foldl Graph.take g := by
  have hadd : addImports paths files classes g s = addBase classes s.path s.facts.base
      (s.facts.loads.foldl (addLoad paths files s.path) (g.addNode s.path)) := rfl
  have hloads : ∀ g : Graph, s.facts.loads.foldl (addLoad paths files s.path) g =
      ((s.facts.loads.filterMap (loadEdge? paths files s.path)).map .edge).foldl Graph.take g := by
    intro g
    rw [List.foldl_map, List.foldl_filterMap]
    congr 1
    funext g load
    rw [addLoad_eq]
    cases loadEdge? paths files s.path load <;> rfl
  rw [hadd, addBase_eq, hloads, importSteps, importEdges, List.map_append, List.foldl_cons,
    List.foldl_append]
  rfl

/-- The graph of imports is built in steps. -/
theorem imports_build : (build scripts scenes data settings files).imports =
    Graph.ofSteps (scripts.flatMap
      (importSteps (scripts.map (·.path)) files (classTable (classEntries scripts)))) := by
  rw [Graph.ofSteps, List.foldl_flatMap]
  simp only [← addImports_eq_foldl]
  rfl

theorem isOrdered_imports : (build scripts scenes data settings files).imports.IsOrdered := by
  rw [imports_build]
  exact Graph.isOrdered_ofSteps _

/-! ## What depends on what -/

/-- A script imports another one: it loads it, or its base is a class that the other declares. -/
structure Imports (scripts : List Script) (files : List String) (s : Script) (b : String) : Prop where
  ne : b ≠ s.path
  by_load_or_base :
    (∃ load ∈ s.facts.loads, loadTarget (scripts.map (·.path)) files s.path load = .script b) ∨
      ∃ base entry, s.facts.base = some base ∧ base.isPath = false ∧
        (classTable (classEntries scripts)).get? base.target = some entry ∧ entry.file = b

theorem mem_loadEdges_iff {loads : List Load} :
    (∃ e ∈ loads.filterMap (loadEdge? paths files a), e.target = b) ↔
      b ≠ a ∧ ∃ load ∈ loads, loadTarget paths files a load = .script b := by
  simp only [List.mem_filterMap]
  constructor
  · rintro ⟨e, ⟨load, hload, he⟩, rfl⟩
    unfold loadEdge? at he
    split at he
    · rename_i path hpath
      split_ifs at he with hself
      cases he
      rw [beq_iff_eq] at hself
      exact ⟨hself, load, hload, hpath⟩
    · cases he
  · rintro ⟨hne, load, hload, htarget⟩
    refine ⟨⟨a, b, load.kind, load.line⟩, ⟨load, hload, ?_⟩, rfl⟩
    unfold loadEdge?
    simp [htarget, hne]

theorem mem_baseEdge_iff {base : Option Extends} :
    (∃ e, base.bind (baseEdge? classes a) = some e ∧ e.target = b) ↔
      b ≠ a ∧ ∃ base' entry, base = some base' ∧ base'.isPath = false ∧
        classes.get? base'.target = some entry ∧ entry.file = b := by
  cases base with
  | none => simp
  | some base =>
      unfold baseEdge?
      cases hpath : base.isPath with
      | true => simp [hpath]
      | false =>
          cases hclass : classes.get? base.target with
          | none => simp [hpath, hclass]
          | some entry =>
              by_cases hfile : entry.file = a
              · subst hfile
                simpa [hpath, hclass] using fun hne => Ne.symm hne
              · simpa [hpath, hclass, hfile] using fun heq => heq ▸ hfile

/-- Every dependency of a script starts at its path. -/
theorem source_of_mem_importEdges {s : Script} {e : Edge}
    (h : e ∈ importEdges paths files classes s) : e.source = s.path := by
  unfold importEdges at h
  rcases List.mem_append.mp h with h | h
  · obtain ⟨load, -, he⟩ := List.mem_filterMap.mp h
    unfold loadEdge? at he
    split at he
    · split_ifs at he
      cases he
      rfl
    · cases he
  · obtain ⟨base, -, he⟩ := Option.bind_eq_some_iff.mp (Option.mem_toList.mp h)
    unfold baseEdge? at he
    split_ifs at he
    obtain ⟨entry, -, he⟩ := Option.bind_eq_some_iff.mp he
    split_ifs at he
    cases he
    rfl

/-- **Which script depends on which**: the one has the path of a script that imports the other. -/
theorem hasEdge_imports_iff : (build scripts scenes data settings files).imports.hasEdge a b = true ↔
    ∃ s ∈ scripts, s.path = a ∧ Imports scripts files s b := by
  have himports : ∀ s, Imports scripts files s b ↔
      ∃ e ∈ importEdges (scripts.map (·.path)) files (classTable (classEntries scripts)) s,
        e.target = b := by
    intro s
    simp only [importEdges, List.mem_append, Option.mem_toList, or_and_right, exists_or]
    rw [mem_loadEdges_iff, mem_baseEdge_iff, ← and_or_left]
    exact ⟨fun h => ⟨h.ne, h.by_load_or_base⟩, fun h => ⟨h.1, h.2⟩⟩
  rw [imports_build, Graph.hasEdge_ofSteps_iff]
  simp only [himports, List.mem_flatMap, importSteps, List.mem_cons, reduceCtorEq, false_or,
    List.mem_map, Graph.Step.edge.injEq, exists_eq_right]
  constructor
  · rintro ⟨e, ⟨s, hs, he⟩, rfl, rfl⟩
    exact ⟨s, hs, (source_of_mem_importEdges he).symm, e, he, rfl⟩
  · rintro ⟨s, hs, rfl, e, he, rfl⟩
    exact ⟨e, ⟨s, hs, he⟩, source_of_mem_importEdges he, rfl⟩

/-! ## Loads line by line -/

/-- What a line loads does not depend on where it stands. -/
theorem targets_loadsOfLine (functions : List Function) (raw : List Char) (line : Nat) :
    (Script.loadsOfLine functions raw line).map (·.target) =
      (Script.loadsOfLine [] raw 0).map (·.target) := by
  unfold Script.loadsOfLine
  dsimp only
  by_cases hload : (!Text.contains "load".toList (Line.code raw)) = true
  · rw [if_pos hload, if_pos hload]
  · rw [if_neg hload, if_neg hload, List.map_filterMap, List.map_filterMap]
    congr 1
    funext m
    by_cases hinside : Line.isInsideLiteral (Line.code raw) m.start = true
    · rw [if_pos hinside, if_pos hinside]
    · rw [if_neg hinside, if_neg hinside]
      rfl

/-- A script loads what its lines load. -/
theorem exists_mem_loads {source : Source} {raw : List Char} {target : String}
    (hraw : raw ∈ source.lines) (htarget : target ∈ (Script.loadsOfLine [] raw 0).map (·.target)) :
    ∃ load ∈ (Script.ofSource source).facts.loads, load.target = target := by
  obtain ⟨line, hline⟩ := Text.exists_mem_zipIdx hraw 1
  rw [← targets_loadsOfLine (Function.ofLines source.lines) _ line] at htarget
  obtain ⟨load, hload, rfl⟩ := List.mem_map.mp htarget
  refine ⟨load, ?_, rfl⟩
  change load ∈ Script.loads source.lines (Function.ofLines source.lines) _
  unfold Script.loads sortByNat
  rw [mem_stableSort, List.mem_append, List.mem_flatMap]
  exact .inr ⟨_, hline, hload⟩

/-- A line that loads another script makes its own script depend on it. -/
theorem hasEdge_imports_of_line {sources : List Source} {source : Source} {raw : List Char}
    {target : String} (hsource : source ∈ sources) (hraw : raw ∈ source.lines)
    (htarget : target ∈ (Script.loadsOfLine [] raw 0).map (·.target))
    (hpath : Path.resolveString? source.path target = some b) (hb : b ∈ sources.map (·.path))
    (hne : b ≠ source.path) :
    (build (sources.map Script.ofSource) scenes data settings files).imports.hasEdge
      source.path b = true := by
  obtain ⟨load, hload, rfl⟩ := exists_mem_loads hraw htarget
  refine hasEdge_imports_iff.mpr ⟨_, List.mem_map_of_mem hsource, rfl, hne, .inl ⟨load, hload, ?_⟩⟩
  have hscript : ((sources.map Script.ofSource).map (·.path)).contains b = true := by
    rw [List.map_map, List.contains_iff_mem]
    exact hb
  have hresolve : Path.resolveString? (Script.ofSource source).path load.target = some b := hpath
  simp only [loadTarget, hresolve, hscript, if_true]

end Index

end GodotLint
