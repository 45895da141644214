import GodotLint.Proofs.Project.Loaded
import GodotLint.Proofs.Project.Paths

/-!
# The files that discovery selects

A walk through a tree without links visits each file to which no directory with a hidden name leads
(`Walk.steps_eq_of_isPlain`), by induction over the tree. Discovery keeps the paths of all of these, and
selects scripts, scenes and data files by the extension, by the directories on the path from the root and by
the patterns that exclude files (`IsAnalysed`, `discover_isDiscovery`).

Hidden directories are told twice: the walk does not enter a directory with a hidden name, and the selection
looks at the segments of the path. They are the same directories as long as no name has a backslash, which
becomes a slash on the path (`FoundFile.segments_relativeOf`, `not_forall_files_visible`).
-/

namespace GodotLint

open Text

/-! ## Trees without links -/

namespace FileTree

mutual

/-- A tree of directories and regular files, whose names have no slash. -/
def IsPlain : FileTree → Prop
  | .file _ => True
  | .link _ => False
  | .directory entries => ArePlain entries

/-- Entries of a tree of directories and regular files. -/
def ArePlain : List (String × FileTree) → Prop
  | [] => True
  | (name, t) :: rest => '/' ∉ name.toList ∧ t.IsPlain ∧ ArePlain rest

end

/-- A name that starts with a point. -/
def isHiddenName (name : String) : Bool := name.toList.head? == some '.'

/-- No directory that leads to a place has a hidden name. The name at the place itself may be one. -/
def isVisible (place : Place) : Bool := place.dropLast.all (!isHiddenName ·)

/-- The places of the files of a tree to which no hidden directory leads. -/
def visibleFiles (t : FileTree) : List Place := ((t.files []).map (·.1)).filter isVisible

mutual

/-- The place of a file goes on from that of its tree, by names without slashes. -/
theorem exists_of_mem_files {names place : Place} : ∀ {t : FileTree}, t.IsPlain →
    place ∈ (t.files names).map (·.1) → ∃ more, place = names ++ more ∧ ∀ n ∈ more, '/' ∉ n.toList
  | .file content, _, h => ⟨[], by simpa [files] using h, by simp⟩
  | .directory entries, hplain, h => by
      have hentries : ArePlain entries := hplain
      obtain ⟨name, more, rfl, hmore⟩ := exists_of_mem_filesOfEntries hentries h
      exact ⟨name :: more, rfl, hmore⟩

/-- The place of a file in a directory goes on from that of the directory by a name at least. -/
theorem exists_of_mem_filesOfEntries {names place : Place} : ∀ {entries : List (String × FileTree)},
    ArePlain entries → place ∈ (filesOfEntries names entries).map (·.1) →
      ∃ name more, place = names ++ name :: more ∧ ∀ n ∈ name :: more, '/' ∉ n.toList
  | [], _, h => by simp [filesOfEntries] at h
  | (name, t) :: rest, hplain, h => by
      obtain ⟨hname, ht, hrest⟩ := hplain
      rw [filesOfEntries, List.map_append, List.mem_append] at h
      rcases h with h | h
      · obtain ⟨more, rfl, hmore⟩ := exists_of_mem_files ht h
        exact ⟨name, more, by simp, List.forall_mem_cons.mpr ⟨hname, hmore⟩⟩
      · exact exists_of_mem_filesOfEntries hrest h

end

end FileTree

namespace Walk

open FileTree

variable {behindLink : List Visit → List String → List WalkStep} {names place : Place}

/-- Only a directory with a hidden name is not entered. -/
theorem isHidden_append_singleton (names : Place) (name : String) :
    isHidden (names ++ [name]) = isHiddenName name := by
  rw [isHidden, List.getLast?_concat]
  rfl

/-- A hidden directory on the way hides what is behind it. -/
theorem isVisible_append_cons (name : String) (more : Place) :
    isVisible (names ++ name :: more) = true → names.all (!isHiddenName ·) = true := by
  intro h
  rw [isVisible, List.dropLast_append_of_ne_nil (List.cons_ne_nil name more), List.all_append,
    Bool.and_eq_true] at h
  exact h.1

/-- A directory that is visible and is entered has only visible names on its way. -/
theorem all_not_isHiddenName_iff (h : isVisible names = true) :
    names.all (!isHiddenName ·) = true ↔ isHidden names = false := by
  rcases List.eq_nil_or_concat' names with rfl | ⟨way, name, rfl⟩
  · simp [isHidden]
  · rw [isVisible, List.dropLast_concat] at h
    rw [List.all_append, h, isHidden_append_singleton]
    simp

mutual

/-- A walk through a tree visits the files of the tree to which no hidden directory leads. -/
theorem steps_eq_of_isPlain {names place : Place} : ∀ {visits : List Visit} {t : FileTree}, t.IsPlain →
    isVisible names = true →
      steps behindLink visits names place t =
        (((t.files names).map (·.1)).filter isVisible).map WalkStep.file
  | _, .file content, _, hvisible => by simp [steps, files, hvisible]
  | _, .directory entries, h, hvisible => by
      have hentries : ArePlain entries := h
      rw [steps, files]
      split_ifs with hhidden
      · have hnone : ∀ p ∈ (filesOfEntries names entries).map (·.1), ¬ isVisible p = true := by
          intro p hp hvisible'
          obtain ⟨name, more, rfl, -⟩ := exists_of_mem_filesOfEntries hentries hp
          have hall := isVisible_append_cons name more hvisible'
          rw [all_not_isHiddenName_iff hvisible, hhidden] at hall
          cases hall
        rw [List.filter_eq_nil_iff.mpr hnone, List.map_nil]
      · rw [Bool.not_eq_true, ← all_not_isHiddenName_iff hvisible] at hhidden
        exact stepsOfEntries_eq_of_arePlain hentries hhidden

/-- The same for the entries of a directory. -/
theorem stepsOfEntries_eq_of_arePlain {names place : Place} :
    ∀ {visits : List Visit} {entries : List (String × FileTree)}, ArePlain entries →
    names.all (!isHiddenName ·) = true →
      stepsOfEntries behindLink visits names place entries =
        (((filesOfEntries names entries).map (·.1)).filter isVisible).map WalkStep.file
  | _, [], _, _ => rfl
  | visits, (name, t) :: rest, h, hvisible => by
      obtain ⟨-, ht, hrest⟩ := h
      have hnames : isVisible (names ++ [name]) = true := by simpa [isVisible] using hvisible
      rw [stepsOfEntries, filesOfEntries, List.map_append, List.filter_append, List.map_append,
        steps_eq_of_isPlain ht hnames, stepsOfEntries_eq_of_arePlain hrest hvisible]

end

end Walk

/-- A walk from a directory with plain entries visits its visible files, and meets no fault. -/
theorem Disk.walk_eq {d : Disk} {root : String} {entries : List (String × FileTree)}
    (hroot : d.node root = .ok (.directory entries)) (hplain : FileTree.ArePlain entries) :
    d.walk root = (FileTree.directory entries).visibleFiles.map WalkStep.file := by
  have hstart : Walk.pathOf root [] = root := by simp [Walk.pathOf, str]
  cases hlocate : d.locate root with
  | error fault =>
      rw [Disk.node, hlocate] at hroot
      cases hroot
  | ok place =>
      have hat : d.root.at? place = some (.directory entries) := by
        simp only [Disk.node, hlocate, bind, Except.bind] at hroot
        cases hfound : d.root.at? place with
        | none =>
            rw [hfound] at hroot
            cases hroot
        | some t =>
            rw [hfound] at hroot
            rw [Except.ok.inj hroot]
      rw [Disk.walk, Walk.stepsBehind, hstart, hlocate]
      simp only [hat, List.find?_nil]
      exact Walk.steps_eq_of_isPlain hplain rfl

/-! ## Paths of files -/

namespace Text

variable {sep : Char} {s t : List Char}

theorem bne_of_mem_reverse (h : sep ∉ s) : ∀ c ∈ s.reverse, (c != sep) = true := by
  intro c hc
  rw [bne_iff_ne]
  rintro rfl
  exact h (List.mem_reverse.mp hc)

theorem afterLast_of_not_mem (h : sep ∉ s) : afterLast sep s = s := by
  rw [afterLast, List.takeWhile_eq_self_iff.mpr (bne_of_mem_reverse h), List.reverse_reverse]

theorem afterLast_append_cons (h : sep ∉ t) (s : List Char) : afterLast sep (s ++ sep :: t) = t := by
  rw [afterLast, List.reverse_append, List.reverse_cons, List.append_assoc, List.singleton_append,
    List.takeWhile_append_of_pos (bne_of_mem_reverse h)]
  simp

end Text

/-- The extension of a path is what follows the last point of its last name, if something stands before
that. -/
theorem Path.extension?_eq_some_iff {path extension : List Char} (h : '.' ∉ extension) :
    extension? path = some extension ↔
      ∃ stem, stem ≠ [] ∧ fileName path = stem ++ '.' :: extension := by
  have hsplit : fileName path = ((fileName path).reverse.dropWhile (· != '.')).reverse ++
      ((fileName path).reverse.takeWhile (· != '.')).reverse := by
    rw [← List.reverse_append, List.takeWhile_append_dropWhile, List.reverse_reverse]
  unfold extension?
  constructor
  · intro hsome
    dsimp only at hsome
    split at hsome
    · cases hsome
    · cases hsome
    · next point stem hne hdrop =>
        obtain rfl : point = '.' := by
          have hhead := List.head?_dropWhile_not (· != '.') (fileName path).reverse
          rw [hdrop] at hhead
          simpa using hhead
        have hext : '.' ∉ ((fileName path).reverse.takeWhile (· != '.')).reverse := by
          intro hmem
          simpa using List.mem_takeWhile_imp (List.mem_reverse.mp hmem)
        rw [hdrop, List.reverse_cons, List.append_assoc, List.singleton_append] at hsplit
        rw [hsplit, afterLast_append_cons hext, Option.some_inj] at hsome
        rw [hsome] at hsplit
        exact ⟨stem.reverse, by simpa using hne, hsplit⟩
  · rintro ⟨stem, hstem, hname⟩
    obtain ⟨c, stem', hreverse⟩ := List.exists_cons_of_ne_nil (List.reverse_ne_nil_iff.mpr hstem)
    have hdrop : (fileName path).reverse.dropWhile (· != '.') = '.' :: c :: stem' := by
      rw [hname, List.reverse_append, List.reverse_cons, List.append_assoc, List.singleton_append,
        List.dropWhile_append_of_pos (bne_of_mem_reverse h), hreverse]
      rfl
    simp only [hdrop]
    rw [hname, afterLast_append_cons h]

namespace FoundFile

variable {name : String} {way place : Place}

theorem toList_joinWith (names : List String) :
    (joinWith "/" names).toList = join ['/'] (names.map (·.toList)) := by
  induction names using joinWith.induct with
  | case1 => rfl
  | case2 => rfl
  | case3 name rest hrest ih =>
      rw [List.map_cons, join_cons (by simpa using hrest), joinWith, String.toList_append,
        String.toList_append, ih]
      · rfl
      · exact hrest

/-- Where no name has a backslash, the segments of a relative path are the names. -/
theorem segments_relativeOf (hne : place ≠ []) (hslash : ∀ n ∈ place, '/' ∉ n.toList)
    (hback : ∀ n ∈ place, '\\' ∉ n.toList) :
    Path.segments (relativeOf place).toList = place.map (·.toList) := by
  have hsegments := @Path.segments_join (place.map (·.toList)) (by simpa using hne) (by simpa using hslash)
  have hjoin : ∀ c ∈ join ['/'] (place.map (·.toList)), (c == '\\') = false := by
    intro c hc
    rw [beq_eq_false_iff_ne]
    rintro rfl
    rcases mem_join hc with hsep | ⟨_, hname, hmem⟩
    · exact absurd (List.mem_singleton.mp hsep) (by decide)
    · obtain ⟨n, hn, rfl⟩ := List.mem_map.mp hname
      exact hback n hn hmem
  have hkept : (join ['/'] (place.map (·.toList))).flatMap (fun c => if c == '\\' then ['/'] else [c]) =
      (join ['/'] (place.map (·.toList))).flatMap fun c => [c] :=
    List.flatMap_congr fun c hc => by rw [hjoin c hc]; rfl
  rw [relativeOf, String.toList_ofList, toList_joinWith, Path.withSlashes, replaceChar, hkept,
    List.flatMap_singleton', hsegments]

/-- The last name of a path that goes on by a name. -/
theorem fileName_pathOf (root : String) (way : Place) (hname : '/' ∉ name.toList) :
    Path.fileName (Walk.pathOf root (way ++ [name])).toList = name.toList := by
  rw [Walk.pathOf, String.toList_ofList, List.foldl_append, List.foldl_cons, List.foldl_nil]
  generalize way.foldl (fun path name => Path.under path name.toList) root.toList = directory
  rw [Path.under]
  split_ifs with hpath hlast
  · exact afterLast_of_not_mem hname
  · rw [beq_iff_eq, List.getLast?_eq_some_iff] at hlast
    obtain ⟨start, rfl⟩ := hlast
    rw [List.append_assoc]
    exact afterLast_append_cons hname start
  · exact afterLast_append_cons hname directory

end FoundFile

/-! ## Selection -/

/-- A file is analysed as one of those with an extension. -/
structure IsAnalysed (config : Config) (extension : List Char) (place : Place) : Prop where
  /-- The name of the file is the extension, a point before it, and something before the point. -/
  name : ∃ way stem, stem ≠ [] ∧ place = way ++ [str (stem ++ '.' :: extension)]
  /-- No directory on the path from the root is hidden or skipped. -/
  way : ∀ s ∈ (Path.segments (FoundFile.relativeOf place).toList).dropLast,
    s.head? ≠ some '.' ∧ str s ∉ config.skipDirs
  not_excluded : config.excludes (FoundFile.relativeOf place) = false

/-- The file that a walk from a root finds at a place. -/
def FoundFile.ofPlace (root : String) (place : Place) : FoundFile :=
  ⟨Walk.pathOf root place, FoundFile.relativeOf place⟩

open Classical in
/-- The files are those at the places that are analysed, each once, in the order of their paths. -/
structure IsSelection (root : String) (config : Config) (places : List Place) (extension : List Char)
    (found : List FoundFile) : Prop where
  perm : found.Perm ((places.filter (IsAnalysed config extension ·)).map (FoundFile.ofPlace root))
  sorted : found.Pairwise fun f g => f.relative ≤ g.relative

section selection

variable {d : Disk} {root : String} {config : Config} {entries : List (String × FileTree)}
  {extension : String} {place : Place}

/-- A visible file has a name, and no name on the way to it has a slash. -/
theorem FileTree.exists_of_mem_visibleFiles (hplain : FileTree.ArePlain entries)
    (h : place ∈ (FileTree.directory entries).visibleFiles) :
    place ≠ [] ∧ ∀ n ∈ place, '/' ∉ n.toList := by
  obtain ⟨name, more, rfl, hslash⟩ :=
    FileTree.exists_of_mem_filesOfEntries hplain (List.mem_of_mem_filter h)
  exact ⟨List.cons_ne_nil name more, hslash⟩

/-- The extension of a file is told by its name. -/
theorem hasExtension_ofPlace_iff (hpoint : '.' ∉ extension.toList) (hne : place ≠ [])
    (hslash : ∀ n ∈ place, '/' ∉ n.toList) : (FoundFile.ofPlace root place).hasExtension extension = true ↔
      ∃ way stem, stem ≠ [] ∧ place = way ++ [str (stem ++ '.' :: extension.toList)] := by
  obtain ⟨way, name, rfl⟩ := (List.eq_nil_or_concat' place).resolve_left hne
  rw [FoundFile.hasExtension, beq_iff_eq, Path.extension?_eq_some_iff hpoint, FoundFile.ofPlace,
    FoundFile.fileName_pathOf root way (hslash name (by simp))]
  constructor
  · rintro ⟨stem, hstem, hname⟩
    exact ⟨way, stem, hstem, by simp [← hname, str]⟩
  · rintro ⟨_, stem, hstem, heq⟩
    obtain ⟨-, hname⟩ := List.append_inj' heq rfl
    rw [(List.cons.inj hname).1]
    exact ⟨stem, hstem, String.toList_ofList⟩

/-- The files of an extension are chosen by where they lie and by what they are called. -/
theorem isAnalysed_iff (hpoint : '.' ∉ extension.toList) (hplain : FileTree.ArePlain entries)
    (h : place ∈ (FileTree.directory entries).visibleFiles) :
    ((FoundFile.ofPlace root place).hasExtension extension &&
      (!config.skipsPath (FoundFile.relativeOf place) && !config.excludes (FoundFile.relativeOf place))) =
        true ↔ IsAnalysed config extension.toList place := by
  obtain ⟨hne, hslash⟩ := FileTree.exists_of_mem_visibleFiles hplain h
  have hway : config.skipsPath (FoundFile.relativeOf place) = false ↔
      ∀ s ∈ (Path.segments (FoundFile.relativeOf place).toList).dropLast,
        s.head? ≠ some '.' ∧ str s ∉ config.skipDirs := by
    simp [Config.skipsPath, Config.skipsDirectory]
  rw [Bool.and_eq_true, Bool.and_eq_true, Bool.not_eq_true', Bool.not_eq_true', hway,
    hasExtension_ofPlace_iff hpoint hne hslash]
  exact ⟨fun ⟨hname, hway, hexcluded⟩ => ⟨hname, hway, hexcluded⟩,
    fun ⟨hname, hway, hexcluded⟩ => ⟨hname, hway, hexcluded⟩⟩

open Classical in
/-- What is chosen among the visible files are those that are analysed. -/
theorem isSelection_of_isPlain (hpoint : '.' ∉ extension.toList) (hplain : FileTree.ArePlain entries) :
    IsSelection root config (FileTree.directory entries).visibleFiles extension.toList
      (((stableSort (fun a b => a.relative ≤ b.relative)
        ((FileTree.directory entries).visibleFiles.map (FoundFile.ofPlace root))).filter
          fun f => !config.skipsPath f.relative && !config.excludes f.relative).filter
            (·.hasExtension extension)) := by
  constructor
  · rw [List.filter_filter]
    refine ((stableSort_perm _ _).filter _).trans ?_
    rw [List.filter_map]
    refine List.Perm.of_eq (congrArg _ (List.filter_congr fun place hplace => ?_))
    rw [Bool.eq_iff_iff, decide_eq_true_iff]
    exact isAnalysed_iff hpoint hplain hplace
  · exact ((Project.pairwise_stableSort_path FoundFile.relative _).filter _).filter _

/-- What discovery selects of a directory of regular files. -/
structure IsDiscovery (d : Disk) (root : String) (config : Config) (entries : List (String × FileTree)) :
    Prop where
  /-- The files are those to which no hidden directory leads, each once, ... -/
  files_perm : (d.discover root config).files.Perm
    ((FileTree.directory entries).visibleFiles.map FoundFile.relativeOf)
  /-- ... in the order of their paths. -/
  files_sorted : (d.discover root config).files.Pairwise (· ≤ ·)
  scripts : IsSelection root config (FileTree.directory entries).visibleFiles "gd".toList
    (d.discover root config).scripts
  scenes : IsSelection root config (FileTree.directory entries).visibleFiles "tscn".toList
    (d.discover root config).scenes
  data : IsSelection root config (FileTree.directory entries).visibleFiles "json".toList
    (d.discover root config).data
  /-- The directories on the path of a file are those that lead to it, unless a name has a backslash, which
  is a slash on the path. -/
  segments : ∀ place ∈ (FileTree.directory entries).visibleFiles, (∀ n ∈ place, '\\' ∉ n.toList) →
    (Path.segments (FoundFile.relativeOf place).toList).dropLast = place.dropLast.map (·.toList)
  /-- The project is loaded, and every file is there for its references, analysed or not. -/
  present : ∃ p, Project.load d root config = .ok p ∧
    ∀ path, p.hasFile path = true ↔ path ∈ (d.discover root config).files

/-- **Discovery selects the files that can be analysed**, for every directory of regular files and every
configuration. -/
theorem discover_isDiscovery (hroot : d.node root = .ok (.directory entries))
    (hplain : FileTree.ArePlain entries) : IsDiscovery d root config entries := by
  have hfound : (d.walk root).filterMap (Discovery.fileOf? root) =
      (FileTree.directory entries).visibleFiles.map (FoundFile.ofPlace root) := by
    have hcomp : Discovery.fileOf? root ∘ WalkStep.file = some ∘ FoundFile.ofPlace root := rfl
    rw [Disk.walk_eq hroot hplain, List.filterMap_map, hcomp, List.filterMap_eq_map]
  have hfiles : (d.discover root config).files = (stableSort (fun a b => decide (a.relative ≤ b.relative))
      ((FileTree.directory entries).visibleFiles.map (FoundFile.ofPlace root))).map (·.relative) := by
    rw [Disk.discover, Discovery.ofSteps, hfound]
  refine ⟨?_, ?_, ?_, ?_, ?_, fun place hplace hback => ?_, ?_⟩
  · rw [hfiles]
    refine ((stableSort_perm _ _).map _).trans ?_
    rw [List.map_map]
    rfl
  · rw [hfiles, List.pairwise_map]
    exact Project.pairwise_stableSort_path FoundFile.relative _
  · rw [Disk.discover, Discovery.ofSteps, hfound]
    exact isSelection_of_isPlain (by decide) hplain
  · rw [Disk.discover, Discovery.ofSteps, hfound]
    exact isSelection_of_isPlain (by decide) hplain
  · rw [Disk.discover, Discovery.ofSteps, hfound]
    exact isSelection_of_isPlain (by decide) hplain
  · obtain ⟨hne, hslash⟩ := FileTree.exists_of_mem_visibleFiles hplain hplace
    rw [FoundFile.segments_relativeOf hne hslash hback, List.map_dropLast]
  · have hdirectory : d.isDirectory root = true := by rw [Disk.isDirectory, hroot]
    obtain ⟨p, hp⟩ : ∃ p, Project.load d root config = .ok p := by
      rw [Project.load, hdirectory]
      exact ⟨_, rfl⟩
    obtain ⟨documents, faults, rfl⟩ := Project.exists_assemble_of_load hp
    refine ⟨_, hp, fun path => ?_⟩
    rw [Project.hasFile, List.contains_iff_mem, Project.files_assemble, mem_sortedSet]

theorem discover_isDiscovery_addons :
    let entries : List (String × FileTree) := [(".godot", .directory [("cache.gd", .file [])]),
      (".hidden.gd", .file []), ("addons", .directory [("tool.gd", .file [])]), ("b.gd", .file []),
      ("ui", .directory [("hud.gd", .file []), ("hud.tscn", .file [])])]
    let d : Disk := ⟨.directory [("project", .directory entries)], ["project"]⟩
    d.node "." = .ok (.directory entries) ∧ FileTree.ArePlain entries ∧
    (d.discover "." {}).files.Perm
      [".hidden.gd", "addons/tool.gd", "b.gd", "ui/hud.gd", "ui/hud.tscn"] ∧
    IsSelection "." {} [[".hidden.gd"], ["addons", "tool.gd"], ["b.gd"], ["ui", "hud.gd"], ["ui", "hud.tscn"]]
      "gd".toList (d.discover "." {}).scripts := by
  intro entries d
  have hroot : d.node "." = .ok (.directory entries) := by cbv
  have hplain : FileTree.ArePlain entries :=
    ⟨by decide, ⟨by decide, trivial, trivial⟩, by decide, trivial, by decide, ⟨by decide, trivial, trivial⟩,
      by decide, trivial, by decide, ⟨by decide, trivial, by decide, trivial, trivial⟩, trivial⟩
  have hfound : IsDiscovery d "." {} entries := discover_isDiscovery hroot hplain
  exact ⟨hroot, hplain, hfound.files_perm, hfound.scripts⟩

end selection

/-- The path of a file whose name has a backslash may lie in a hidden directory, and is one of the files all
the same. -/
theorem not_forall_files_visible : ¬ ∀ (d : Disk) (root : String) (config : Config)
    (entries : List (String × FileTree)), d.node root = .ok (.directory entries) →
      FileTree.ArePlain entries → ∀ path ∈ (d.discover root config).files,
        ∀ s ∈ (Path.segments path.toList).dropLast, s.head? ≠ some '.' := by
  intro h
  let d : Disk := ⟨.directory [(".x\\y.gd", .file [])], []⟩
  have hroot : d.node "." = .ok d.root := by cbv
  have hfiles : (d.discover "." {}).files = [".x/y.gd"] := by cbv
  have hnot := h d "." {} _ hroot ⟨by decide, trivial, trivial⟩ ".x/y.gd"
    (hfiles ▸ List.mem_singleton.mpr rfl) ".x".toList (by decide)
  exact hnot rfl

end GodotLint
