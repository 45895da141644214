import GodotLint.Check.Dependencies
import GodotLint.Proofs.Index.Classes
import GodotLint.Proofs.Index.Growth
import GodotLint.Proofs.Index.Imports
import GodotLint.Proofs.Project.Loaded

/-!
# Dependencies and layers

A script depends on another file that it imports, or whose class it uses. The check collects the lines
that make these dependencies, sorts them by their ends and takes neighbours with the same ends together.
Sorted by their ends, those with the same ends are neighbours, so each pair is left once
(`pairwise_merge`), with the least of its lines (`isLeast_of_mem_merge`). All that is reported is
counted over these pairs.
-/

namespace GodotLint.Check

/-! ## Merging -/

namespace Dependency

variable {l : List Dependency} {d x : Dependency}

/-- The two ends. -/
def ends (d : Dependency) : String × String := (d.source, d.target)

theorem isLE_compare_iff : (d.compare x).isLE = true ↔ toLex d.ends ≤ toLex x.ends := by
  simp only [compare, thenBy, Ordering.isLE_then_iff_or, compare_lt_iff_lt, compare_eq_iff_eq, ends,
    Prod.Lex.toLex_le_toLex]
  simp only [← Ordering.ne_gt_iff_isLE, compare_le_iff_le]

theorem sameEnds_iff : d.sameEnds x = true ↔ d.ends = x.ends := by
  simp [sameEnds, ends]

/-- Sorted by their ends. -/
def IsSorted (l : List Dependency) : Prop := l.Pairwise fun d x => toLex d.ends ≤ toLex x.ends

theorem isSorted_stableSort (l : List Dependency) :
    IsSorted (stableSort (fun d x => (d.compare x).isLE) l) := by
  have htotal : ∀ d x : Dependency, (d.compare x).isLE ∨ (x.compare d).isLE :=
    fun d x => by simpa only [isLE_compare_iff] using le_total _ _
  have htrans : ∀ d x y : Dependency, (d.compare x).isLE → (x.compare y).isLE → (d.compare y).isLE :=
    fun d x y => by simpa only [isLE_compare_iff] using le_trans
  exact (pairwise_stableSort htotal htrans l).imp isLE_compare_iff.mp

/-- Merging keeps and adds no pair of ends. -/
theorem mem_map_ends_merge {p : String × String} :
    p ∈ (merge l).map ends ↔ p ∈ l.map ends := by
  induction l with
  | nil => rfl
  | cons d l ih =>
      rw [List.map_cons, List.mem_cons, ← ih, merge]
      cases merge l with
      | nil => simp
      | cons e others =>
          simp only
          split_ifs with hsame
          · have heq : d.ends = e.ends := sameEnds_iff.mp hsame
            have hmerged : ({ e with line := min d.line e.line } : Dependency).ends = e.ends := rfl
            rw [List.map_cons, hmerged, heq, List.map_cons, List.mem_cons]
            tauto
          · rw [List.map_cons, List.mem_cons]

/-- What is sorted in front of a different pair comes before all that follows. -/
theorem lt_of_merge_eq_cons (h : IsSorted (d :: l)) {e : Dependency} {others : List Dependency}
    (hmerge : merge l = e :: others)
    (hstrict : (merge l).Pairwise fun d x => toLex d.ends < toLex x.ends) (hne : d.ends ≠ e.ends) :
    ∀ p ∈ l.map ends, toLex d.ends < toLex p := by
  have hfirst : ∀ p ∈ l.map ends, toLex d.ends ≤ toLex p := by
    intro p hp
    obtain ⟨x, hx, rfl⟩ := List.mem_map.mp hp
    exact (List.pairwise_cons.mp h).1 x hx
  have he : e.ends ∈ l.map ends := by
    rw [← mem_map_ends_merge, hmerge]
    exact List.mem_cons_self
  have hlt : toLex d.ends < toLex e.ends := lt_of_le_of_ne (hfirst _ he) hne
  intro p hp
  rw [← mem_map_ends_merge, hmerge, List.map_cons, List.mem_cons] at hp
  rcases hp with rfl | hp
  · exact hlt
  · obtain ⟨x, hx, rfl⟩ := List.mem_map.mp hp
    rw [hmerge] at hstrict
    exact hlt.trans ((List.pairwise_cons.mp hstrict).1 x hx)

/-- **Each pair is left once.** -/
theorem pairwise_merge (h : IsSorted l) :
    (merge l).Pairwise fun d x => toLex d.ends < toLex x.ends := by
  induction l with
  | nil => exact .nil
  | cons d l ih =>
      have hstrict := ih (List.pairwise_cons.mp h).2
      rw [merge]
      cases hmerge : merge l with
      | nil => exact List.pairwise_singleton ..
      | cons e others =>
          simp only
          split_ifs with hsame
          · rw [hmerge] at hstrict
            -- only the line of the first one changes
            exact List.pairwise_cons.mpr (List.pairwise_cons.mp hstrict)
          · rw [sameEnds_iff] at hsame
            refine List.pairwise_cons.mpr ⟨fun x hx => ?_, hmerge ▸ hstrict⟩
            refine lt_of_merge_eq_cons h hmerge hstrict hsame _ ?_
            rw [← mem_map_ends_merge, hmerge]
            exact List.mem_map_of_mem hx

/-- The lines that make the dependency between two ends. -/
def linesOf (l : List Dependency) (p : String × String) : Set Nat :=
  {line | ∃ x ∈ l, x.ends = p ∧ x.line = line}

theorem linesOf_cons_self : linesOf (d :: l) d.ends = insert d.line (linesOf l d.ends) := by
  ext line
  simp only [linesOf, List.mem_cons, exists_eq_or_imp, true_and, Set.mem_ofPred_eq,
    Set.mem_insert_iff, eq_comm (a := line)]

theorem linesOf_cons_of_ne {p : String × String} (h : d.ends ≠ p) : linesOf (d :: l) p = linesOf l p := by
  ext line
  simp only [linesOf, List.mem_cons, exists_eq_or_imp, Set.mem_ofPred_eq, h, false_and, false_or]

theorem linesOf_eq_empty {p : String × String} (h : p ∉ l.map ends) : linesOf l p = ∅ := by
  refine Set.eq_empty_iff_forall_notMem.mpr ?_
  rintro line ⟨x, hx, rfl, -⟩
  exact h (List.mem_map_of_mem hx)

/-- **A pair is left with the least of its lines.** -/
theorem isLeast_of_mem_merge (h : IsSorted l) (hd : d ∈ merge l) :
    IsLeast (linesOf l d.ends) d.line := by
  induction l generalizing d with
  | nil => cases hd
  | cons x l ih =>
      have hsorted := (List.pairwise_cons.mp h).2
      have hstrict := pairwise_merge hsorted
      rw [merge] at hd
      cases hmerge : merge l with
      | nil =>
          rw [hmerge, List.mem_singleton] at hd
          subst hd
          have hnone : d.ends ∉ l.map ends := by simp [← mem_map_ends_merge, hmerge]
          rw [linesOf_cons_self, linesOf_eq_empty hnone]
          simp
      | cons e others =>
          rw [hmerge] at hd
          simp only at hd
          split_ifs at hd with hsame
          · rw [sameEnds_iff] at hsame
            have he : e ∈ merge l := by simp [hmerge]
            rcases List.mem_cons.mp hd with rfl | hd
            · change IsLeast (linesOf (x :: l) e.ends) (min x.line e.line)
              rw [← hsame, linesOf_cons_self, hsame]
              exact (ih hsorted he).insert x.line
            · rw [hmerge] at hstrict
              have hlt := (List.pairwise_cons.mp hstrict).1 d hd
              rw [linesOf_cons_of_ne fun heq => hlt.ne (congrArg toLex (hsame.symm.trans heq))]
              exact ih hsorted (by simp [hmerge, hd])
          · rw [sameEnds_iff] at hsame
            have hlt := lt_of_merge_eq_cons h hmerge hstrict hsame
            rcases List.mem_cons.mp hd with rfl | hd
            · have hnone : d.ends ∉ l.map ends := fun hmem => lt_irrefl _ (hlt _ hmem)
              rw [linesOf_cons_self, linesOf_eq_empty hnone]
              simp
            · have hd : d ∈ merge l := by rwa [hmerge]
              have hmem : d.ends ∈ l.map ends := mem_map_ends_merge.mp (List.mem_map_of_mem hd)
              rw [linesOf_cons_of_ne fun heq => (hlt _ hmem).ne (congrArg toLex heq)]
              exact ih hsorted hd

end Dependency

/-! ## The dependencies of a project -/

/-- A reference in `a` resolves to the script file `b`. -/
def UsesFile (r : Reference) (a b : String) : Prop :=
  r.file = a ∧ r.resolution = .resolved b ∧ b.endsWith ".gd" = true

/-- One file depends on another: it imports it, or the name of a class in it resolves to it. -/
def DependsOn (ix : Index) (a b : String) : Prop :=
  a ≠ b ∧ (ix.imports.hasEdge a b = true ∨ ∃ r ∈ ix.referencesOf .className, UsesFile r a b)

/-- The lines on which one file imports another or uses a class of it. -/
def dependencyLines (ix : Index) (a b : String) : Set Nat :=
  {line | (∃ e ∈ ix.imports.edges, e.source = a ∧ e.target = b ∧ e.line = line) ∨
    ∃ r ∈ ix.referencesOf .className, UsesFile r a b ∧ r.mention.line = line}

namespace Dependency

variable {ix : Index} {a b : String}

/-- The dependency that an import makes. -/
def ofEdge (e : Edge) : Dependency := ⟨e.source, e.target, e.line⟩

/-- The dependency that a reference to a class makes. -/
def ofReference? (r : Reference) : Option Dependency :=
  match r.resolution with
  | .resolved target =>
    if target != r.file && target.endsWith ".gd" then some ⟨r.file, target, r.mention.line⟩ else none
  | _ => none

/-- All that makes a dependency, line by line. -/
def collected (ix : Index) : List Dependency :=
  stableSort (fun d x => (d.compare x).isLE)
    (ix.imports.edges.map ofEdge ++ (ix.referencesOf .className).filterMap ofReference?)

theorem ofIndex_eq (ix : Index) : ofIndex ix = merge (collected ix) := rfl

theorem ofReference?_eq_some_iff {r : Reference} {d : Dependency} : ofReference? r = some d ↔
    UsesFile r d.source d.target ∧ d.source ≠ d.target ∧ r.mention.line = d.line := by
  rw [ofReference?, UsesFile]
  constructor
  · intro h
    split at h
    · rename_i target htarget
      split_ifs at h with hfile
      cases h
      rw [Bool.and_eq_true, bne_iff_ne] at hfile
      exact ⟨⟨rfl, htarget, hfile.2⟩, hfile.1.symm, rfl⟩
    · cases h
  · rintro ⟨⟨hfile, htarget, hscript⟩, hne, hline⟩
    rw [htarget]
    simp [hfile, hline, hscript, hne.symm]

/-- The dependencies of an index have different ends. -/
theorem pairwise_ofIndex (ix : Index) : (ofIndex ix).Pairwise fun d x => d.ends ≠ x.ends :=
  (pairwise_merge (isSorted_stableSort _)).imp fun hlt heq => hlt.ne (congrArg toLex heq)

/-- What is collected between two different files are the lines between them. -/
theorem linesOf_collected (hne : a ≠ b) : linesOf (collected ix) (a, b) = dependencyLines ix a b := by
  ext line
  simp only [linesOf, collected, dependencyLines, mem_stableSort, List.mem_append, List.mem_map,
    List.mem_filterMap, ofReference?_eq_some_iff, Set.mem_ofPred_eq, ends, Prod.mk.injEq]
  constructor
  · rintro ⟨d, ⟨e, he, rfl⟩ | ⟨r, hr, huse, -, hline⟩, ⟨rfl, rfl⟩, rfl⟩
    · exact .inl ⟨e, he, rfl, rfl, rfl⟩
    · exact .inr ⟨r, hr, huse, hline⟩
  · rintro (⟨e, he, rfl, rfl, rfl⟩ | ⟨r, hr, huse, rfl⟩)
    · exact ⟨_, .inl ⟨e, he, rfl⟩, ⟨rfl, rfl⟩, rfl⟩
    · exact ⟨⟨a, b, r.mention.line⟩, .inr ⟨r, hr, huse, hne, rfl⟩, ⟨rfl, rfl⟩, rfl⟩

end Dependency

/-! ## Dependencies of loaded projects -/

section loaded

variable {p : Project} {a b : String}

/-- No edge of the graph of imports leads from a file to itself, and each starts at a script. -/
theorem exists_script_of_mem_edges (hp : p.IsLoaded) {e : Edge} (he : e ∈ p.index.imports.edges) :
    p.index.imports.hasEdge e.source e.target = true ∧ e.source ≠ e.target ∧
      ∃ s ∈ p.scripts, s.path = e.source ∧ Index.Imports p.scripts p.files s e.target := by
  rw [Project.index_eq_build hp] at he ⊢
  have hedge : (Index.build p.scripts p.scenes p.data p.settings p.files).imports.hasEdge
      e.source e.target = true := by
    rw [Index.imports_build] at he ⊢
    exact Graph.hasEdge_iff_exists_mem_edges.mpr ⟨e, he, rfl, rfl⟩
  obtain ⟨s, hs, hpath, himports⟩ := Index.hasEdge_imports_iff.mp hedge
  exact ⟨hedge, fun heq => himports.ne (by rw [← heq, hpath]), s, hs, hpath, himports⟩

/-- The pairs of ends are those that depend on each other. -/
theorem mem_ends_ofIndex_iff (hp : p.IsLoaded) :
    (a, b) ∈ (Dependency.ofIndex p.index).map Dependency.ends ↔ DependsOn p.index a b := by
  have hedges : p.index.imports.hasEdge a b = true ↔
      ∃ e ∈ p.index.imports.edges, e.source = a ∧ e.target = b := by
    rw [Project.index_eq_build hp, Index.imports_build]
    exact Graph.hasEdge_iff_exists_mem_edges
  rw [Dependency.ofIndex_eq, Dependency.mem_map_ends_merge, DependsOn, hedges]
  simp only [Dependency.collected, List.mem_map, mem_stableSort, List.mem_append,
    List.mem_filterMap, Dependency.ofReference?_eq_some_iff, Dependency.ends, Prod.mk.injEq]
  constructor
  · rintro ⟨d, ⟨e, he, rfl⟩ | ⟨r, hr, huse, hne, -⟩, rfl, rfl⟩
    · exact ⟨(exists_script_of_mem_edges hp he).2.1, .inl ⟨e, he, rfl, rfl⟩⟩
    · exact ⟨hne, .inr ⟨r, hr, huse⟩⟩
  · rintro ⟨hne, ⟨e, he, rfl, rfl⟩ | ⟨r, hr, huse⟩⟩
    · exact ⟨_, .inl ⟨e, he, rfl⟩, rfl, rfl⟩
    · exact ⟨⟨a, b, r.mention.line⟩, .inr ⟨r, hr, huse, hne, rfl⟩, rfl, rfl⟩

/-- Each reference comes from a mention in a script. -/
theorem exists_mention_of_mem_references (hp : p.IsLoaded) {r : Reference}
    (hr : r ∈ p.index.references) : ∃ s ∈ p.scripts, ∃ m,
      r = Index.referenceOf (Index.tablesOf p.scripts p.scenes p.settings p.files) s m := by
  rw [Project.index_eq_build hp] at hr
  change r ∈ Index.resolveAll _ _ at hr
  rw [Index.resolveAll, mem_stableSort, List.mem_flatMap] at hr
  obtain ⟨s, hs, hr⟩ := hr
  obtain ⟨m, -, rfl⟩ := List.mem_map.mp hr
  exact ⟨s, hs, m, rfl⟩

/-- What depends on something is a script. -/
theorem exists_script_of_dependsOn (hp : p.IsLoaded) (h : DependsOn p.index a b) :
    ∃ s ∈ p.scripts, s.path = a := by
  obtain ⟨-, hedge | ⟨r, hr, rfl, -, -⟩⟩ := h
  · rw [Project.index_eq_build hp] at hedge
    obtain ⟨s, hs, hpath, -⟩ := Index.hasEdge_imports_iff.mp hedge
    exact ⟨s, hs, hpath⟩
  · obtain ⟨s, hs, m, rfl⟩ := exists_mention_of_mem_references hp (List.mem_of_mem_filter hr)
    exact ⟨s, hs, rfl⟩

/-- A class that the index knows is that of a script. -/
theorem exists_script_of_get?_classTable {scripts : List Script} {name : String} {entry : ClassEntry}
    (h : (Index.classTable (Index.classEntries scripts)).get? name = some entry) :
    ∃ s ∈ scripts, s.path = entry.file := by
  rw [Index.get?_classTable] at h
  obtain ⟨s, hs, hentry⟩ := List.mem_filterMap.mp (List.mem_of_find?_eq_some h)
  obtain ⟨-, -, rfl⟩ := Option.map_eq_some_iff.mp hentry
  exact ⟨s, hs, rfl⟩

/-- A name that resolves is one of the file itself, of a class or of a singleton. -/
theorem cases_of_resolveName {t : Index.Tables} {name : String} {locals : List String}
    (h : t.resolveName name a locals = .resolved b) :
    a = b ∨ (∃ entry, t.classes.get? name = some entry ∧ entry.file = b) ∨
      ∃ entry ∈ t.autoloads, entry.script.getD entry.decl.path = b := by
  rw [Index.Tables.resolveName] at h
  by_cases hlocal : locals.contains name = true
  · rw [if_pos hlocal] at h
    exact .inl (Resolution.resolved.inj h)
  · rw [if_neg hlocal] at h
    cases hclass : t.classes.get? name with
    | some entry =>
        rw [hclass] at h
        exact .inr (.inl ⟨entry, rfl, Resolution.resolved.inj h⟩)
    | none =>
        cases hautoload : t.autoloads.find? (·.name == name) with
        | some entry =>
            rw [hclass, hautoload] at h
            exact .inr (.inr ⟨entry, List.mem_of_find?_eq_some hautoload, Resolution.resolved.inj h⟩)
        | none =>
            rw [hclass, hautoload] at h
            simp only at h
            split_ifs at h

/-- What something depends on is a script, or what stands for a singleton. -/
theorem exists_target_of_dependsOn (hp : p.IsLoaded) (h : DependsOn p.index a b) :
    (∃ s ∈ p.scripts, s.path = b) ∨
      ∃ entry ∈ p.index.autoloads, entry.script.getD entry.decl.path = b := by
  obtain ⟨hne, hedge | ⟨r, hr, rfl, hresolved, -⟩⟩ := h
  · rw [Project.index_eq_build hp] at hedge
    obtain ⟨s, -, -, himports⟩ := Index.hasEdge_imports_iff.mp hedge
    rcases himports.by_load_or_base with ⟨load, -, htarget⟩ | ⟨base, entry, -, -, hentry, rfl⟩
    · rw [Index.loadTarget] at htarget
      split at htarget
      · cases htarget
      · split_ifs at htarget with hscript
        cases htarget
        exact .inl (List.mem_map.mp (List.contains_iff_mem.mp hscript))
    · exact .inl (exists_script_of_get?_classTable hentry)
  · obtain ⟨hr, hkind⟩ := List.mem_filter.mp hr
    obtain ⟨s, hs, m, rfl⟩ := exists_mention_of_mem_references hp hr
    have hkind : m.kind = .className := of_decide_eq_true hkind
    rw [Index.referenceOf, Index.Tables.resolve, hkind] at hresolved
    rcases cases_of_resolveName hresolved with heq | ⟨entry, hentry, rfl⟩ | ⟨entry, hentry, rfl⟩
    · exact absurd heq hne
    · exact .inl (exists_script_of_get?_classTable hentry)
    · rw [Project.index_eq_build hp]
      exact .inr ⟨entry, hentry, rfl⟩

end loaded

/-! ## The report -/

/-- The layer of one file is below that of another. -/
def IsLayeredBelow (a b : String) : Prop :=
  ∃ m n, (Layer.ofPath a).rank? = some m ∧ (Layer.ofPath b).rank? = some n ∧ m < n

/-- An issue reports that a file depends on one of a higher layer, on the first line that makes it. -/
structure IsViolation (ix : Index) (d : String × String) (i : Issue) : Prop where
  file : i.file = d.1
  line : IsLeast (dependencyLines ix d.1 d.2) i.line
  message : i.message = d.1 ++ " depends on " ++ d.2 ++
    " (" ++ ((Layer.ofPath d.1).name ++ " -> " ++ (Layer.ofPath d.2).name) ++ ")"
  severity : i.severity = .error

/-- What the check reports of the dependencies of a project; `D` are the pairs of files of which the one
depends on the other. -/
structure IsCouplingReport (p : Project) (layer : Option Layer) (findings : Findings)
    (D : Finset (String × String)) : Prop where
  mem_iff : ∀ a b, (a, b) ∈ D ↔ DependsOn p.index a b
  dependencies : findings.summary.get? "dependencies" = some (.nat D.card)
  /-- Each dependency on a higher layer is reported once, if it starts in the layer asked for. -/
  violations : ∃ ds : List (String × String), ds.Nodup ∧
    (∀ a b, (a, b) ∈ ds ↔ (a, b) ∈ D ∧ IsLayeredBelow a b ∧ ∀ l ∈ layer, Layer.ofPath a = l) ∧
    findings.summary.get? "layer_violation_count" = some (.nat ds.length) ∧
    List.Forall₂ (IsViolation p.index) ds (findings.issues.filter (·.kind = "layer_violation"))
  /-- Of each script the dependencies are counted that end and that start with it. -/
  metrics : ∃ metrics, findings.summary.get? "metrics" = some (.obj metrics) ∧ ∀ s ∈ p.scripts,
    metrics.lookup s.path = some (couplingMetrics
      ⟨(D.filter (·.2 = s.path)).card, (D.filter (·.1 = s.path)).card⟩)
  /-- Every dependency starts with a script. -/
  sum_efferent : ∑ path ∈ (p.scripts.map (·.path)).toFinset, (D.filter (·.1 = path)).card = D.card
  /-- It ends with a script, or with what stands for a singleton. -/
  targets : ∀ a b, (a, b) ∈ D → (∃ s ∈ p.scripts, s.path = b) ∨
    ∃ entry ∈ p.index.autoloads, entry.script.getD entry.decl.path = b

theorem violation?_eq_some_iff {d : Dependency} {reason : String} : d.violation? = some reason ↔
    IsLayeredBelow d.source d.target ∧
      reason = (Layer.ofPath d.source).name ++ " -> " ++ (Layer.ofPath d.target).name := by
  rw [Dependency.violation?, IsLayeredBelow]
  cases (Layer.ofPath d.source).rank? with
  | none => simp
  | some m =>
      cases (Layer.ofPath d.target).rank? with
      | none => simp
      | some n =>
          simp only [Option.some.injEq, exists_eq_left', exists_and_left]
          split_ifs with hlt <;> simp [hlt, eq_comm]

/-- The dependencies on higher layers that are reported. -/
theorem mem_layerViolations_iff {layer : Option Layer} {deps : List Dependency} {d : Dependency}
    {reason : String} : (d, reason) ∈ layerViolations layer deps ↔
      (d ∈ deps ∧ ∀ l ∈ layer, Layer.ofPath d.source = l) ∧ IsLayeredBelow d.source d.target ∧
        reason = (Layer.ofPath d.source).name ++ " -> " ++ (Layer.ofPath d.target).name := by
  simp only [layerViolations, List.mem_filterMap, List.mem_filter, Option.map_eq_some_iff,
    violation?_eq_some_iff, Prod.mk.injEq, Option.all_eq_true, beq_iff_eq]
  constructor
  · rintro ⟨d, hd, reason, hreason, rfl, rfl⟩
    exact ⟨hd, hreason⟩
  · rintro ⟨hd, hreason⟩
    exact ⟨d, hd, reason, hreason, rfl, rfl⟩

/-- Each dependency on a higher layer is reported once. -/
theorem nodup_layerViolations {layer : Option Layer} {deps : List Dependency}
    (h : deps.Pairwise fun d x => d.ends ≠ x.ends) :
    ((layerViolations layer deps).map (·.1.ends)).Nodup := by
  rw [List.Nodup, List.pairwise_map, layerViolations, List.pairwise_filterMap]
  refine (h.filter _).imp fun hne v hv w hw => ?_
  obtain ⟨-, -, rfl⟩ := Option.map_eq_some_iff.mp hv
  obtain ⟨-, -, rfl⟩ := Option.map_eq_some_iff.mp hw
  exact hne

/-- What is counted among the dependencies is counted among their pairs of ends. -/
theorem countP_eq_card_filter {deps : List Dependency} (h : (deps.map Dependency.ends).Nodup)
    (q : String × String → Prop) [DecidablePred q] :
    deps.countP (fun d => q d.ends) = ((deps.map Dependency.ends).toFinset.filter q).card := by
  have hfilter : (deps.map Dependency.ends).toFinset.filter q =
      ((deps.map Dependency.ends).filter (q ·)).toFinset := by
    rw [List.toFinset_filter]
    simp
  rw [hfilter, List.toFinset_card_of_nodup (h.filter _), List.filter_map, List.length_map,
    List.countP_eq_length_filter]
  rfl

/-- How a script hangs together with others, counted over the pairs of ends. -/
theorem couplingOf_eq {deps : List Dependency} (h : (deps.map Dependency.ends).Nodup) (file : String) :
    couplingOf deps file = ⟨((deps.map Dependency.ends).toFinset.filter (·.2 = file)).card,
      ((deps.map Dependency.ends).toFinset.filter (·.1 = file)).card⟩ := by
  rw [← countP_eq_card_filter h (·.2 = file), ← countP_eq_card_filter h (·.1 = file)]
  rfl

/-- Every dependency is counted at the script that it starts with. -/
theorem sum_efferent_eq {p : Project} (hp : p.IsLoaded) {D : Finset (String × String)}
    (hD : ∀ a b, (a, b) ∈ D ↔ DependsOn p.index a b) :
    ∑ path ∈ (p.scripts.map (·.path)).toFinset, (D.filter (·.1 = path)).card = D.card := by
  refine (Finset.card_eq_sum_card_fiberwise (f := Prod.fst) ?_).symm
  rintro ⟨a, b⟩ hab
  obtain ⟨s, hs, rfl⟩ := exists_script_of_dependsOn hp ((hD a b).mp hab)
  simpa using ⟨s, hs, rfl⟩

/-- The issues of layers are those of the violations. -/
theorem filter_layerIssues (couplings : List (String × Coupling)) (limit : Nat)
    (violations : List (Dependency × String)) :
    (couplings.filterMap (fun (file, k) => couplingIssue? limit file k) ++
      violations.map fun (d, reason) => layerIssue d reason).filter (·.kind = "layer_violation") =
        violations.map fun (d, reason) => layerIssue d reason := by
  rw [List.filter_append, List.filter_eq_nil_iff.mpr, List.nil_append, List.filter_eq_self.mpr]
  · rintro i hi
    obtain ⟨⟨d, reason⟩, -, rfl⟩ := List.mem_map.mp hi
    exact decide_eq_true rfl
  · intro i hi
    obtain ⟨⟨file, k⟩, -, hissue⟩ := List.mem_filterMap.mp hi
    change couplingIssue? limit file k = some i at hissue
    unfold couplingIssue? at hissue
    split_ifs at hissue
    cases hissue
    simp

/-- What is reported of a dependency on a higher layer. -/
theorem isViolation_layerIssue {ix : Index} {d : Dependency} (hd : d ∈ Dependency.ofIndex ix)
    (hne : d.source ≠ d.target) : IsViolation ix d.ends (layerIssue d
      ((Layer.ofPath d.source).name ++ " -> " ++ (Layer.ofPath d.target).name)) := by
  have hd : d ∈ Dependency.merge (Dependency.collected ix) := hd
  have hleast := Dependency.isLeast_of_mem_merge (Dependency.isSorted_stableSort _) hd
  refine ⟨rfl, ?_, rfl, rfl⟩
  change IsLeast (dependencyLines ix d.source d.target) d.line
  rw [← Dependency.linesOf_collected hne]
  exact hleast

/-- What the summary says of each script. -/
def metricsOf (c : Context) : SortedMap Json :=
  .ofList ((c.scripts.map fun s => (s.path, couplingOf (Dependency.ofIndex c.index) s.path)).map
    fun (file, k) => (file, couplingMetrics k))

theorem get?_metricsOf (c : Context) {s : Script} (hs : s ∈ c.scripts) : (metricsOf c).get? s.path =
    some (couplingMetrics (couplingOf (Dependency.ofIndex c.index) s.path)) := by
  have hkeys : metricsOf c = .ofList ((c.scripts.map (·.path)).map fun path =>
      (path, couplingMetrics (couplingOf (Dependency.ofIndex c.index) path))) := by
    rw [metricsOf, List.map_map, List.map_map]
    rfl
  rw [hkeys]
  exact SortedMap.get?_ofList_map _ (List.mem_map_of_mem hs)

/-- What the check reports in terms of its own list of dependencies. -/
theorem exists_findings_coupling (c : Context) : ∃ findings, coupling.run c = .finished findings ∧
    findings.summary.get? "dependencies" = some (.nat (Dependency.ofIndex c.index).length) ∧
    findings.summary.get? "layer_violation_count" =
      some (.nat (layerViolations c.options.layer (Dependency.ofIndex c.index)).length) ∧
    (∃ metrics, findings.summary.get? "metrics" = some (.obj metrics) ∧ ∀ s ∈ c.scripts,
      metrics.lookup s.path =
        some (couplingMetrics (couplingOf (Dependency.ofIndex c.index) s.path))) ∧
    findings.issues.filter (·.kind = "layer_violation") =
      (layerViolations c.options.layer (Dependency.ofIndex c.index)).map
        fun (d, reason) => layerIssue d reason := by
  refine ⟨_, rfl, ?_, ?_, ⟨(metricsOf c).entries, ?_, fun s hs => get?_metricsOf c hs⟩,
    filter_layerIssues ..⟩
  · rw [SortedMap.get?_ofList]
    rfl
  · rw [SortedMap.get?_ofList]
    rfl
  · rw [SortedMap.get?_ofList]
    rfl

/-- **Layer violations are exact**, for every project that a program may meet and every layer that a user
may ask for. -/
theorem coupling_isCouplingReport {p : Project} (hp : p.IsLoaded) (options : Options) :
    ∃ findings D, coupling.run ⟨p, options⟩ = .finished findings ∧
      IsCouplingReport p options.layer findings D := by
  obtain ⟨findings, hrun, hcount, hviolations, ⟨metrics, hmetrics, hlookup⟩, hissues⟩ :=
    exists_findings_coupling ⟨p, options⟩
  change findings.summary.get? "dependencies" = some (.nat (Dependency.ofIndex p.index).length) at hcount
  have hstrict := Dependency.pairwise_ofIndex p.index
  have hnodup : ((Dependency.ofIndex p.index).map Dependency.ends).Nodup :=
    List.pairwise_map.mpr hstrict
  have hmem : ∀ a b, (a, b) ∈ ((Dependency.ofIndex p.index).map Dependency.ends).toFinset ↔
      DependsOn p.index a b := by
    intro a b
    rw [List.mem_toFinset]
    exact mem_ends_ofIndex_iff hp
  refine ⟨findings, _, hrun, hmem, ?_, ⟨(layerViolations options.layer
    (Dependency.ofIndex p.index)).map (·.1.ends), nodup_layerViolations hstrict, fun a b => ?_, ?_, ?_⟩,
    ⟨metrics, hmetrics, fun s hs => ?_⟩, sum_efferent_eq hp hmem,
    fun a b h => exists_target_of_dependsOn hp ((hmem a b).mp h)⟩
  · rw [hcount, List.toFinset_card_of_nodup hnodup, List.length_map]
  · simp only [List.mem_map, Prod.exists, mem_layerViolations_iff, List.mem_toFinset]
    constructor
    · rintro ⟨d, reason, ⟨⟨hd, hlayer⟩, hbelow, -⟩, hends⟩
      obtain ⟨rfl, rfl⟩ := Prod.mk.inj hends
      exact ⟨⟨d, hd, rfl⟩, hbelow, hlayer⟩
    · rintro ⟨⟨d, hd, hends⟩, hbelow, hlayer⟩
      obtain ⟨rfl, rfl⟩ := Prod.mk.inj hends
      exact ⟨d, _, ⟨⟨hd, hlayer⟩, hbelow, rfl⟩, rfl⟩
  · rw [hviolations, List.length_map]
    rfl
  · rw [hissues, List.forall₂_map_left_iff, List.forall₂_map_right_iff]
    refine List.forall₂_same.mpr ?_
    rintro ⟨d, reason⟩ hviolation
    obtain ⟨⟨hd, -⟩, -, rfl⟩ := mem_layerViolations_iff.mp hviolation
    have hdepends : DependsOn p.index d.source d.target :=
      (mem_ends_ofIndex_iff hp).mp (List.mem_map_of_mem hd)
    exact isViolation_layerIssue hd hdepends.1
  · rw [← couplingOf_eq hnodup]
    exact hlookup s hs

/-- A script of the lowest layer that loads one of a higher layer, and uses its class before. -/
def layered : Project := .ofFiles {}
  [("sim/core.gd", "var shop: Shop\nconst SHOP = preload(\"res://ui/shop.gd\")\n"),
    ("ui/shop.gd", "class_name Shop\n")]

theorem coupling_isCouplingReport_layered : layered.IsLoaded ∧
    ∃ findings D, coupling.run ⟨layered, { layer := some .sim }⟩ = .finished findings ∧
      IsCouplingReport layered (some .sim) findings D ∧ ("sim/core.gd", "ui/shop.gd") ∈ D ∧
      findings.issues.map (·.line) = [1] := by
  obtain ⟨findings, D, hrun, hreport⟩ := coupling_isCouplingReport (p := layered) (.ofFiles ..)
    { layer := some .sim }
  refine ⟨.ofFiles .., findings, D, hrun, hreport, ?_, ?_⟩
  · exact (hreport.mem_iff ..).mpr ⟨by decide, .inl (by decide +kernel)⟩
  · have hfound : ∃ findings, coupling.run ⟨layered, { layer := some .sim }⟩ = .finished findings ∧
        findings.issues.map (·.line) = [1] := ⟨_, rfl, by decide +kernel⟩
    obtain ⟨found, hrun', hlines⟩ := hfound
    obtain rfl := Outcome.finished.inj (hrun.symm.trans hrun')
    exact hlines

end GodotLint.Check
