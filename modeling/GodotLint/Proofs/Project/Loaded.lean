import GodotLint.Project.Load
import GodotLint.Proofs.Ordering

/-!
# Projects as they are loaded

A project is loaded from a disk or put together from files that are given with their texts
(`IsLoaded`). Either way its scripts are among its files (`hasFile_of_mem_scripts`) and in the order of
their paths (`pairwise_path_scripts`).
-/

namespace GodotLint.Project

variable {p : Project} {s : Script} {d : Disk} {α : Type}

/-- The projects that a program may meet. -/
inductive IsLoaded : Project → Prop
  | load {d : Disk} {root : String} {config : Config} {p : Project}
      (h : Project.load d root config = .ok p) : IsLoaded p
  | ofFiles (config : Config) (files : List (String × String)) : IsLoaded (.ofFiles config files)

/-- What is read comes from one of the files. -/
theorem exists_of_mem_readAll {input : FoundFile → Input} {read : FoundFile → List UInt8 → α}
    {found : List FoundFile} {x : α} (h : x ∈ (readAll d input read found).1) :
    ∃ f ∈ found, ∃ bytes, x = read f bytes := by
  induction found with
  | nil => simp [readAll] at h
  | cons f rest ih =>
      rw [readAll] at h
      cases hread : d.readInput f.path with
      | ok bytes =>
          simp only [hread, List.mem_cons] at h
          rcases h with rfl | h
          · exact ⟨f, List.mem_cons_self, bytes, rfl⟩
          · obtain ⟨g, hg, hx⟩ := ih h
            exact ⟨g, List.mem_cons_of_mem f hg, hx⟩
      | error fault =>
          simp only [hread] at h
          obtain ⟨g, hg, hx⟩ := ih h
          exact ⟨g, List.mem_cons_of_mem f hg, hx⟩

/-- The scripts that a walk finds are among its files. -/
theorem mem_files_of_mem_scripts {root : String} {config : Config} {f : FoundFile}
    (h : f ∈ (d.discover root config).scripts) : f.relative ∈ (d.discover root config).files := by
  rw [Disk.discover, Discovery.ofSteps] at h ⊢
  dsimp only at h ⊢
  exact List.mem_map_of_mem (List.mem_of_mem_filter (List.mem_of_mem_filter h))

/-- A project on a disk is put together from what is read of the files that a walk finds. -/
theorem exists_assemble_of_load {root : String} {config : Config}
    (h : Project.load d root config = .ok p) : ∃ documents faults,
      p = assemble root config
        (readAll d (fun _ => .scripts) (fun f bytes => Source.ofBytes f.relative bytes)
          (d.discover root config).scripts).1
        documents (sortedSet (d.discover root config).files) faults := by
  rw [Project.load] at h
  split_ifs at h
  rw [Except.ok.injEq] at h
  subst h
  exact ⟨_, _, rfl⟩

@[simp] theorem files_assemble (root : String) (config : Config) (sources : List Source)
    (documents : List Document) (files : List String) (faults : List FileFault) :
    (assemble root config sources documents files faults).files = files := rfl

@[simp] theorem scripts_assemble (root : String) (config : Config) (sources : List Source)
    (documents : List Document) (files : List String) (faults : List FileFault) :
    (assemble root config sources documents files faults).scripts = sources.map Script.ofSource := rfl

/-- Every script of a project that is put together is one of the sources. -/
theorem exists_of_mem_scripts_assemble {root : String} {config : Config} {sources : List Source}
    {documents : List Document} {files : List String} {faults : List FileFault}
    (h : s ∈ (assemble root config sources documents files faults).scripts) :
    ∃ source ∈ sources, s.source = source := by
  obtain ⟨source, hsource, rfl⟩ := List.mem_map.mp h
  exact ⟨source, hsource, rfl⟩

/-- What is known of a script is read from its lines. -/
theorem facts_of_mem_scripts (h : p.IsLoaded) (hs : s ∈ p.scripts) :
    s.facts = .ofLines s.source.lines := by
  have hassemble : ∀ {root config sources documents files faults},
      s ∈ (assemble root config sources documents files faults).scripts →
        s.facts = .ofLines s.source.lines := by
    intro root config sources documents files faults hs
    obtain ⟨source, -, rfl⟩ := List.mem_map.mp hs
    rfl
  cases h with
  | load h =>
      obtain ⟨documents, faults, rfl⟩ := exists_assemble_of_load h
      exact hassemble hs
  | ofFiles config files => exact hassemble hs

/-- The index is that of the parts of the project. -/
theorem index_eq_build (h : p.IsLoaded) :
    p.index = .build p.scripts p.scenes p.data p.settings p.files := by
  have hassemble : ∀ root config sources documents files faults,
      let p := assemble root config sources documents files faults
      p.index = .build p.scripts p.scenes p.data p.settings p.files := fun _ _ _ _ _ _ => rfl
  cases h with
  | load h =>
      obtain ⟨documents, faults, rfl⟩ := exists_assemble_of_load h
      exact hassemble ..
  | ofFiles config files => exact hassemble ..

/-- **Scripts are files**: a project has the file of each of its scripts. -/
theorem hasFile_of_mem_scripts (h : p.IsLoaded) (hs : s ∈ p.scripts) :
    p.hasFile s.source.path = true := by
  rw [hasFile, List.contains_iff_mem]
  cases h with
  | load h =>
      obtain ⟨documents, faults, rfl⟩ := exists_assemble_of_load h
      obtain ⟨source, hsource, heq⟩ := exists_of_mem_scripts_assemble hs
      obtain ⟨f, hf, bytes, rfl⟩ := exists_of_mem_readAll hsource
      rw [heq, files_assemble]
      exact mem_sortedSet.mpr (mem_files_of_mem_scripts hf)
  | ofFiles config files =>
      obtain ⟨source, hsource, heq⟩ := exists_of_mem_scripts_assemble hs
      obtain ⟨⟨path, text⟩, hfile, rfl⟩ := List.mem_map.mp hsource
      have hmem : (path, text) ∈ files := mem_stableSort.mp (List.mem_of_mem_filter hfile)
      rw [heq, ofFiles, files_assemble]
      exact mem_sortedSet.mpr (List.mem_map_of_mem hmem)

/-! ## The order of scripts -/

/-- What is read keeps the order of the files. -/
theorem pairwise_readAll {input : FoundFile → Input} {read : FoundFile → List UInt8 → α}
    {R : α → α → Prop} {found : List FoundFile}
    (h : found.Pairwise fun f g => ∀ bytes bytes', R (read f bytes) (read g bytes')) :
    (readAll d input read found).1.Pairwise R := by
  induction found with
  | nil => exact .nil
  | cons f found ih =>
      obtain ⟨hfirst, hrest⟩ := List.pairwise_cons.mp h
      rw [readAll]
      cases d.readInput f.path with
      | error fault => exact ih hrest
      | ok bytes =>
          refine List.pairwise_cons.mpr ⟨fun x hx => ?_, ih hrest⟩
          obtain ⟨g, hg, bytes', rfl⟩ := exists_of_mem_readAll hx
          exact hfirst g hg bytes bytes'

/-- Sorting by a path gives rising paths. -/
theorem pairwise_stableSort_path {α : Type} (pathOf : α → String) (l : List α) :
    (stableSort (fun a b => decide (pathOf a ≤ pathOf b)) l).Pairwise
      fun a b => pathOf a ≤ pathOf b := by
  have htotal : ∀ a b : α, decide (pathOf a ≤ pathOf b) ∨ decide (pathOf b ≤ pathOf a) :=
    fun a b => by simpa only [decide_eq_true_iff] using le_total _ _
  have htrans : ∀ a b c : α, decide (pathOf a ≤ pathOf b) → decide (pathOf b ≤ pathOf c) →
      decide (pathOf a ≤ pathOf c) :=
    fun a b c => by simpa only [decide_eq_true_iff] using le_trans
  exact (pairwise_stableSort htotal htrans l).imp of_decide_eq_true

/-- A walk finds the scripts in the order of their paths. -/
theorem pairwise_relative_scripts (d : Disk) (root : String) (config : Config) :
    (d.discover root config).scripts.Pairwise fun f g => f.relative ≤ g.relative := by
  rw [Disk.discover, Discovery.ofSteps]
  exact ((pairwise_stableSort_path FoundFile.relative _).filter _).filter _

/-- **The scripts of a project are in the order of their paths.** -/
theorem pairwise_path_scripts (h : p.IsLoaded) :
    p.scripts.Pairwise fun s t => s.path ≤ t.path := by
  cases h with
  | @load d root config p h =>
      obtain ⟨documents, faults, rfl⟩ := exists_assemble_of_load h
      rw [scripts_assemble, List.pairwise_map]
      exact pairwise_readAll ((pairwise_relative_scripts d root config).imp fun hle _ _ => hle)
  | ofFiles config files =>
      rw [ofFiles, scripts_assemble, List.pairwise_map, List.pairwise_map]
      exact (pairwise_stableSort_path Prod.fst files).filter _

/-- Scripts with distinct paths are in strictly rising order. -/
theorem pairwise_path_lt_scripts (h : p.IsLoaded) (hdistinct : (p.scripts.map (·.path)).Nodup) :
    p.scripts.Pairwise fun s t => s.path < t.path :=
  ((pairwise_path_scripts h).and (List.pairwise_map.mp hdistinct)).imp fun hst =>
    lt_of_le_of_ne hst.1 hst.2

end GodotLint.Project
