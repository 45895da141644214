import GodotLint.Project.Basic
import GodotLint.Proofs.Index.Imports
import GodotLint.Proofs.Ordering
import GodotLint.Proofs.SortedMap

/-!
# A project that grows

A mention resolves against tables of what the scripts and the settings declare. Tables that include
others answer whatever these answer (`Tables.Includes.resolve_ne_unresolved`), and more scripts and
files give tables that include the old ones (`includes_tablesOf`). So a project that is given one
more file, other than the project file, still resolves every mention of its scripts that it resolved
before, and breaks no load (`Project.ofFiles_cons_keepsAnswers`).
-/

namespace GodotLint

/-- The place of a reference among all. -/
def Reference.sortKey (r : Reference) : String ×ₗ ℕ ×ₗ ℕ ×ₗ String :=
  toLex (r.file, toLex (r.mention.line, toLex (r.mention.kind.rank, r.mention.target)))

namespace Index

variable {t u : Tables} {file name target : String} {locals : List String} {m : Mention}

/-! ## When a mention resolves -/

namespace Tables

theorem resolveName_ne_unresolved_iff : t.resolveName name file locals ≠ .unresolved ↔
    name ∈ locals ∨ t.classes.get? name ≠ none ∨ t.autoloads.find? (·.name == name) ≠ none ∨
      name ∈ Builtin.classes := by
  rw [resolveName]
  by_cases hlocal : name ∈ locals
  · rw [if_pos (List.contains_iff_mem.mpr hlocal)]
    simp [hlocal]
  · rw [if_neg fun h => hlocal (List.contains_iff_mem.mp h)]
    cases hclass : t.classes.get? name with
    | some entry => simp
    | none =>
        cases hautoload : t.autoloads.find? (·.name == name) with
        | some a => simp
        | none => simp [hlocal]

theorem resolvePath_ne_unresolved_iff : t.resolvePath target file ≠ .unresolved ↔
    ∀ path, Path.resolveString? file target = some path → path ∈ t.files := by
  rw [resolvePath]
  cases Path.resolveString? file target <;> simp

theorem resolveSignal_ne_unresolved_iff : t.resolveSignal name ≠ .unresolved ↔
    t.signals.find? (·.name == name) ≠ none ∨ name ∈ Builtin.signals := by
  rw [resolveSignal]
  cases t.signals.find? (·.name == name) <;> simp

theorem resolveAction_ne_unresolved_iff : t.resolveAction name ≠ .unresolved ↔
    name ∈ t.inputActions.keys ∨ name.startsWith "ui_" = true := by
  rw [resolveAction, ← SortedMap.contains_iff]
  split_ifs <;> simp_all

/-- Tables that know whatever others know. -/
structure Includes (t u : Tables) : Prop where
  files : t.files ⊆ u.files
  classes : ∀ name, t.classes.get? name ≠ none → u.classes.get? name ≠ none
  signals : ∀ name, t.signals.find? (·.name == name) ≠ none →
    u.signals.find? (·.name == name) ≠ none
  autoloads : ∀ name, t.autoloads.find? (·.name == name) ≠ none →
    u.autoloads.find? (·.name == name) ≠ none
  inputActions : t.inputActions.keys ⊆ u.inputActions.keys

/-- Tables that know more resolve more, for every kind of mention. -/
theorem Includes.resolve_ne_unresolved (h : t.Includes u)
    (hresolves : t.resolve file locals m ≠ .unresolved) :
    u.resolve file locals m ≠ .unresolved := by
  have hname : ∀ name, t.resolveName name file locals ≠ .unresolved →
      u.resolveName name file locals ≠ .unresolved := by
    intro name hresolves
    rw [resolveName_ne_unresolved_iff] at hresolves ⊢
    exact hresolves.imp_right (.imp (h.classes name) (.imp_left (h.autoloads name)))
  have hsignal : ∀ name,
      t.resolveSignal name ≠ .unresolved → u.resolveSignal name ≠ .unresolved := by
    intro name hresolves
    rw [resolveSignal_ne_unresolved_iff] at hresolves ⊢
    exact hresolves.imp_left (h.signals name)
  rw [resolve] at hresolves ⊢
  cases hkind : m.kind with
  | resourcePath =>
      rw [hkind] at hresolves
      have hpath := resolvePath_ne_unresolved_iff.mp hresolves
      exact resolvePath_ne_unresolved_iff.mpr fun path hpath' => h.files (hpath path hpath')
  | className => exact hname m.target (by simpa only [hkind] using hresolves)
  | autoloadMember => exact hname (qualifier m.target) (by simpa only [hkind] using hresolves)
  | signalEmit => exact hsignal m.target (by simpa only [hkind] using hresolves)
  | signalConnect => exact hsignal m.target (by simpa only [hkind] using hresolves)
  | inputAction =>
      rw [hkind] at hresolves
      have haction := resolveAction_ne_unresolved_iff.mp hresolves
      exact resolveAction_ne_unresolved_iff.mpr (haction.imp_left fun hkey => h.inputActions hkey)
  | dictKey => exact Resolution.noConfusion
  | magicNumber => exact Resolution.noConfusion
  | nodePath => exact Resolution.noConfusion
  | awaitTarget => exact Resolution.noConfusion

end Tables

/-! ## What the tables know -/

variable {scripts scripts' : List Script} {scenes scenes' : List Scene} {data : List DataFile}
  {settings : Option Settings} {files files' : List String} {s : Script}

/-- The tables of an index. -/
def tablesOf (scripts : List Script) (scenes : List Scene) (settings : Option Settings)
    (files : List String) : Tables :=
  let ix := build scripts scenes [] settings files
  { files, classes := ix.classes, signals := ix.signals, autoloads := ix.autoloads
    inputActions := ix.inputActions }

/-- A class is known if a script declares it. -/
theorem get?_classTable_ne_none_iff : (classTable (classEntries scripts)).get? name ≠ none ↔
    ∃ s ∈ scripts, ∃ e, classEntry? s = some e ∧ e.name = name := by
  rw [ne_eq, SortedMap.get?_eq_none_iff, not_not, classTable]
  refine SortedMap.mem_keys_foldl_alter.trans ((or_iff_right List.not_mem_nil).trans ?_)
  rw [List.mem_map, classEntries]
  simp only [List.mem_filterMap]
  constructor
  · rintro ⟨e, ⟨s, hs, he⟩, rfl⟩
    exact ⟨s, hs, e, he, rfl⟩
  · rintro ⟨s, hs, e, he, rfl⟩
    exact ⟨e, ⟨s, hs, he⟩, rfl⟩

/-- A signal is known if a script declares it. -/
theorem find?_signalEntries_ne_none_iff :
    (signalEntries scripts scenes).find? (·.name == name) ≠ none ↔
      ∃ s ∈ scripts, ∃ d ∈ s.facts.declarationsOf .signal, d.name = name := by
  rw [ne_eq, List.find?_eq_none, signalEntries]
  simp

/-- A singleton is known if the settings declare it. -/
theorem find?_autoloadEntries_ne_none_iff {settings : Settings} :
    (autoloadEntries scripts scenes files settings).find? (·.name == name) ≠ none ↔
      ∃ decl ∈ settings.autoloads, decl.name = name := by
  rw [ne_eq, List.find?_eq_none, autoloadEntries]
  simp [AutoloadEntry.name, autoloadEntry]

/-- More scripts and files give tables that know more. -/
theorem includes_tablesOf (hscripts : scripts ⊆ scripts') (hfiles : files ⊆ files') :
    (tablesOf scripts scenes settings files).Includes
      (tablesOf scripts' scenes' settings files') where
  files := hfiles
  classes name h := by
    obtain ⟨s, hs, hentry⟩ := get?_classTable_ne_none_iff.mp h
    exact get?_classTable_ne_none_iff.mpr ⟨s, hscripts hs, hentry⟩
  signals name h := by
    obtain ⟨s, hs, hdecl⟩ := find?_signalEntries_ne_none_iff.mp h
    exact find?_signalEntries_ne_none_iff.mpr ⟨s, hscripts hs, hdecl⟩
  autoloads name h := by
    cases settings with
    | none => exact absurd rfl h
    | some settings =>
        exact find?_autoloadEntries_ne_none_iff.mpr (find?_autoloadEntries_ne_none_iff.mp h)
  inputActions := List.Subset.refl _

/-! ## The references and broken loads of one script -/

/-- References are sorted by their places. -/
theorem isLE_referenceOrder_iff {a b : Reference} :
    (referenceOrder a b).isLE = true ↔ a.sortKey ≤ b.sortKey := by
  simp only [referenceOrder, thenBy, Ordering.isLE_then_iff_or, compare_lt_iff_lt,
    compare_eq_iff_eq, Reference.sortKey, Prod.Lex.toLex_le_toLex]
  simp only [← Ordering.ne_gt_iff_isLE, compare_le_iff_le]

/-- How a mention in a script resolves. -/
def referenceOf (t : Tables) (s : Script) (mention : Mention) : Reference :=
  { file := s.path, mention, resolution := t.resolve s.path (localNames s.facts) mention }

/-- The mentions of a script in the order in which they are listed. -/
def sortedMentions (s : Script) : List Mention :=
  stableSort (fun a b => (referenceOrder ⟨s.path, a, .runtime⟩ ⟨s.path, b, .runtime⟩).isLE)
    (allMentions s.facts)

/-- What is listed with the file of its script is, for one file, what is listed for its script. -/
theorem filter_flatMap_eq {β : Type} {f : Script → List β} {fileOf : β → String}
    (hfile : ∀ s, ∀ x ∈ f s, fileOf x = s.path) (hdistinct : (scripts.map (·.path)).Nodup)
    (hs : s ∈ scripts) : (scripts.flatMap f).filter (fun x => fileOf x == s.path) = f s := by
  have hnone : ∀ s' : Script,
      s'.path ≠ s.path → (f s').filter (fun x => fileOf x == s.path) = [] := by
    intro s' hne
    rw [List.filter_eq_nil_iff]
    intro x hx
    rw [hfile s' x hx, beq_iff_eq]
    exact hne
  have hall : (f s).filter (fun x => fileOf x == s.path) = f s := by
    rw [List.filter_eq_self]
    intro x hx
    rw [hfile s x hx, beq_iff_eq]
  obtain ⟨before, after, rfl⟩ := List.append_of_mem hs
  rw [List.map_append, List.map_cons, List.nodup_append, List.nodup_cons] at hdistinct
  obtain ⟨-, ⟨hafter, -⟩, hbefore⟩ := hdistinct
  rw [List.flatMap_append, List.flatMap_cons, List.filter_append, List.filter_append, hall,
    List.filter_flatMap, List.filter_flatMap, List.flatMap_eq_nil_iff.mpr, List.nil_append,
    List.flatMap_eq_nil_iff.mpr, List.append_nil]
  · intro s' hs'
    refine hnone s' fun heq => hafter ?_
    exact heq ▸ List.mem_map_of_mem hs'
  · intro s' hs'
    exact hnone s' (hbefore _ (List.mem_map_of_mem hs') _ List.mem_cons_self)

/-- The references of one file are its mentions in their order, each resolved against the tables. -/
theorem references_of_file (hdistinct : (scripts.map (·.path)).Nodup) (hs : s ∈ scripts) :
    (build scripts scenes data settings files).references.filter (fun r => r.file == s.path) =
      (sortedMentions s).map (referenceOf (tablesOf scripts scenes settings files) s) := by
  change (stableSort _ (scripts.flatMap fun s => (allMentions s.facts).map
    (referenceOf (tablesOf scripts scenes settings files) s))).filter _ = _
  rw [filter_stableSort_comm, filter_flatMap_eq _ hdistinct hs, stableSort_map]
  · rfl
  · intro s r hr
    obtain ⟨m, -, rfl⟩ := List.mem_map.mp hr
    rfl
  · intro a b
    rw [isLE_referenceOrder_iff, isLE_referenceOrder_iff]
    exact le_total _ _
  · intro a b c hab hbc
    rw [isLE_referenceOrder_iff] at *
    exact hab.trans hbc

/-- The broken loads of one file are those of its script. -/
theorem brokenLoads_of_file (hdistinct : (scripts.map (·.path)).Nodup) (hs : s ∈ scripts) :
    (build scripts scenes data settings files).brokenLoads.filter (fun b => b.file == s.path) =
      brokenLoadsOf (scripts.map (·.path)) files s := by
  refine filter_flatMap_eq (fun s b hb => ?_) hdistinct hs
  obtain ⟨load, -, hload⟩ := List.mem_filterMap.mp hb
  split at hload
  · cases hload
    rfl
  · cases hload

/-- More scripts and files break no load. -/
theorem brokenLoadsOf_sublist {paths paths' : List String} (hpaths : paths ⊆ paths')
    (hfiles : files ⊆ files') (s : Script) :
    (brokenLoadsOf paths' files' s).Sublist (brokenLoadsOf paths files s) := by
  rw [brokenLoadsOf, brokenLoadsOf]
  induction s.facts.loads with
  | nil => exact List.Sublist.refl _
  | cons load rest ih =>
      rw [List.filterMap_cons, List.filterMap_cons]
      cases hlarger : loadTarget paths' files' s.path load with
      | missing =>
          obtain ⟨path, hpath, hscript, hfile⟩ := loadTarget_eq_missing_iff.mp hlarger
          have hbroken : loadTarget paths files s.path load = .missing :=
            loadTarget_eq_missing_iff.mpr
              ⟨path, hpath, fun h => hscript (hpaths h), fun h => hfile (hfiles h)⟩
          rw [hbroken]
          exact ih.cons_cons _
      | script path => cases loadTarget paths files s.path load <;> simp [ih]
      | other => cases loadTarget paths files s.path load <;> simp [ih]

/-! ## Larger projects -/

/-- A reference that is answered is still answered by another one. -/
structure KeepsAnswer (r r' : Reference) : Prop where
  file : r'.file = r.file
  mention : r'.mention = r.mention
  resolves : r.resolution ≠ .unresolved → r'.resolution ≠ .unresolved

/-- **Resolution grows with the project**: with more scripts and files, every reference of a script
that was answered is still answered, and its broken loads are among those that were broken. -/
theorem keepsAnswers_build (hscripts : scripts ⊆ scripts') (hfiles : files ⊆ files')
    (hdistinct : (scripts.map (·.path)).Nodup) (hdistinct' : (scripts'.map (·.path)).Nodup)
    {data' : List DataFile} (hs : s ∈ scripts) :
    List.Forall₂ KeepsAnswer
        ((build scripts scenes data settings files).references.filter (·.file == s.path))
        ((build scripts' scenes' data' settings files').references.filter (·.file == s.path)) ∧
      ((build scripts' scenes' data' settings files').brokenLoads.filter (·.file == s.path)).Sublist
        ((build scripts scenes data settings files).brokenLoads.filter (·.file == s.path)) := by
  have hpaths : scripts.map (·.path) ⊆ scripts'.map (·.path) := List.map_subset _ hscripts
  rw [references_of_file hdistinct hs, references_of_file hdistinct' (hscripts hs),
    brokenLoads_of_file hdistinct hs, brokenLoads_of_file hdistinct' (hscripts hs)]
  refine ⟨?_, brokenLoadsOf_sublist hpaths hfiles s⟩
  rw [List.forall₂_map_left_iff, List.forall₂_map_right_iff, List.forall₂_same]
  intro m _
  exact ⟨rfl, rfl, fun h => (includes_tablesOf hscripts hfiles).resolve_ne_unresolved h⟩

end Index

/-! ## Projects -/

namespace Project

variable {config : Config} {files larger : List (String × String)} {path text : String} {s : Script}

/-- The scripts of a project are those of its files whose names end in `.gd`. -/
theorem mem_scripts_ofFiles_iff : s ∈ (ofFiles config files).scripts ↔
    ∃ path text, (path, text) ∈ files ∧ path.endsWith ".gd" = true ∧
      Script.ofSource (.ofText path text.toList) = s := by
  change s ∈ List.map Script.ofSource _ ↔ _
  simp only [List.mem_map, List.mem_filter, mem_stableSort, Prod.exists]
  constructor
  · rintro ⟨source, ⟨path, text, ⟨hmem, hscript⟩, rfl⟩, rfl⟩
    exact ⟨path, text, hmem, hscript, rfl⟩
  · rintro ⟨path, text, hmem, hscript, rfl⟩
    exact ⟨_, ⟨path, text, ⟨hmem, hscript⟩, rfl⟩, rfl⟩

/-- The order in which files are read. -/
def inOrder (files : List (String × String)) : List (String × String) :=
  stableSort (fun a b => a.1 ≤ b.1) files

/-- Scripts of files with distinct paths have distinct paths. -/
theorem nodup_paths_ofFiles (hdistinct : (files.map (·.1)).Nodup) :
    ((ofFiles config files).scripts.map (·.path)).Nodup := by
  have hpaths : (ofFiles config files).scripts.map (·.path) =
      ((inOrder files).filter fun file => file.1.endsWith ".gd").map (·.1) := by
    change List.map _ (List.map Script.ofSource (List.map _ _)) = _
    rw [List.map_map, List.map_map]
    rfl
  rw [hpaths]
  have hsorted : ((inOrder files).map (·.1)).Nodup :=
    ((stableSort_perm _ files).map (·.1)).nodup_iff.mpr hdistinct
  exact (List.filter_sublist.map fun file : String × String => file.1).nodup hsorted

/-- The settings are those of the project file. -/
theorem settings_ofFiles (config : Config) (files : List (String × String)) :
    (ofFiles config files).settings =
      (((inOrder files).filter fun file => file.1 == Settings.fileName).map fun file =>
        Settings.parse file.2.toList).getLast? := by
  change (settingsOf (List.map _ (List.filter _ (inOrder files)))).getLast? = _
  rw [settingsOf, List.filter_map, List.map_map, List.filter_filter]
  refine congrArg List.getLast? (congrArg (List.map _) (List.filter_congr fun file _ => ?_))
  cases hname : file.1 == Settings.fileName <;> simp [hname]

/-- A file of another name leaves the settings as they are. -/
theorem settings_ofFiles_cons (hdistinct : (files.map (·.1)).Nodup)
    (hlarger : larger.Perm ((path, text) :: files)) (hdistinct' : (larger.map (·.1)).Nodup)
    (hname : path ≠ Settings.fileName) :
    (ofFiles config larger).settings = (ofFiles config files).settings := by
  have hpairwise : ∀ files : List (String × String), (files.map (·.1)).Nodup →
      ((inOrder files).filter fun file => file.1 == Settings.fileName).Pairwise (·.1 ≠ ·.1) := by
    intro files hdistinct
    have hsorted : ((inOrder files).map (·.1)).Nodup :=
      ((stableSort_perm _ files).map (·.1)).nodup_iff.mpr hdistinct
    exact (List.pairwise_map.mp hsorted).filter _
  have hperm : ((inOrder larger).filter fun file => file.1 == Settings.fileName).Perm
      ((inOrder files).filter fun file => file.1 == Settings.fileName) := by
    have horder := (stableSort_perm (fun a b => a.1 ≤ b.1) larger).trans hlarger
    have hchosen := horder.filter fun file => file.1 == Settings.fileName
    rw [List.filter_cons_of_neg (by simpa using hname)] at hchosen
    exact hchosen.trans ((stableSort_perm _ files).filter _).symm
  -- at most one file has the name, so there is one order only
  have hsame := List.Perm.eq_of_pairwise (fun a b ha hb hne _ => ?_) (hpairwise larger hdistinct')
    (hpairwise files hdistinct) hperm
  · rw [settings_ofFiles, settings_ofFiles, hsame]
  · have ha := (List.mem_filter.mp ha).2
    have hb := (List.mem_filter.mp hb).2
    rw [beq_iff_eq] at ha hb
    exact absurd (ha.trans hb.symm) hne

/-- **One more file takes no answer away**: the scripts of a project are still there if a file is
added at any place that is not the project file, each of their references that was answered is still
answered, and no load of theirs breaks. -/
theorem ofFiles_cons_keepsAnswers (config : Config) (hdistinct : (files.map (·.1)).Nodup)
    (hnew : path ∉ files.map (·.1)) (hname : path ≠ Settings.fileName)
    (hlarger : larger.Perm ((path, text) :: files)) :
    ∀ s ∈ (ofFiles config files).scripts, s ∈ (ofFiles config larger).scripts ∧
      List.Forall₂ Index.KeepsAnswer
        ((ofFiles config files).index.references.filter (·.file == s.path))
        ((ofFiles config larger).index.references.filter (·.file == s.path)) ∧
      ((ofFiles config larger).index.brokenLoads.filter (·.file == s.path)).Sublist
        ((ofFiles config files).index.brokenLoads.filter (·.file == s.path)) := by
  intro s hs
  have hdistinct' : (larger.map (·.1)).Nodup :=
    (hlarger.map (·.1)).nodup_iff.mpr (List.nodup_cons.mpr ⟨hnew, hdistinct⟩)
  have hsubset : files ⊆ larger := fun file hfile =>
    hlarger.mem_iff.mpr (List.mem_cons_of_mem _ hfile)
  have hscripts : (ofFiles config files).scripts ⊆ (ofFiles config larger).scripts := by
    intro s hs
    obtain ⟨path, text, hmem, hscript⟩ := mem_scripts_ofFiles_iff.mp hs
    exact mem_scripts_ofFiles_iff.mpr ⟨path, text, hsubset hmem, hscript⟩
  have hfiles : (ofFiles config files).files ⊆ (ofFiles config larger).files := by
    intro path hpath
    exact mem_sortedSet.mpr (List.map_subset _ hsubset (mem_sortedSet.mp hpath))
  have hindex : ∀ files, (ofFiles config files).index =
      .build (ofFiles config files).scripts (ofFiles config files).scenes
        (ofFiles config files).data (ofFiles config files).settings (ofFiles config files).files :=
    fun _ => rfl
  rw [hindex, hindex, settings_ofFiles_cons hdistinct hlarger hdistinct' hname]
  exact ⟨hscripts hs, Index.keepsAnswers_build hscripts hfiles (nodup_paths_ofFiles hdistinct)
    (nodup_paths_ofFiles hdistinct') hs⟩

/-- A class and a script that extends it and loads a file that is not there. -/
def heroFiles : List (String × String) :=
  [("hero.gd", "class_name Hero\n"), ("knight.gd", "extends Hero\nvar x = load(\"res://a.gd\")\n")]

/-- The same with a file that declares the class again, and that is the one that is loaded. -/
def rivalFiles : List (String × String) := ("a.gd", "class_name Hero\n") :: heroFiles

theorem ofFiles_cons_keepsAnswers_hero :
    (heroFiles.map (·.1)).Nodup ∧ "a.gd" ∉ heroFiles.map (·.1) ∧ "a.gd" ≠ Settings.fileName ∧
      rivalFiles.Perm (("a.gd", "class_name Hero\n") :: heroFiles) ∧
      ∀ s ∈ (ofFiles {} heroFiles).scripts, s ∈ (ofFiles {} rivalFiles).scripts ∧
        List.Forall₂ Index.KeepsAnswer
          ((ofFiles {} heroFiles).index.references.filter (·.file == s.path))
          ((ofFiles {} rivalFiles).index.references.filter (·.file == s.path)) ∧
        ((ofFiles {} rivalFiles).index.brokenLoads.filter (·.file == s.path)).Sublist
          ((ofFiles {} heroFiles).index.brokenLoads.filter (·.file == s.path)) := by
  have hdistinct : (heroFiles.map (·.1)).Nodup := by decide
  have hnew : "a.gd" ∉ heroFiles.map (·.1) := by decide
  have hname : "a.gd" ≠ Settings.fileName := by decide
  have hlarger : rivalFiles.Perm (("a.gd", "class_name Hero\n") :: heroFiles) := .refl _
  exact ⟨hdistinct, hnew, hname, hlarger,
    ofFiles_cons_keepsAnswers {} hdistinct hnew hname hlarger⟩

/-- The answer may become another one: the first declaration of a class wins. -/
example : ((ofFiles {} heroFiles).index.classFile? "Hero" = some "hero.gd" ∧
      (ofFiles {} heroFiles).index.brokenLoads.length = 1) ∧
    (ofFiles {} rivalFiles).index.classFile? "Hero" = some "a.gd" ∧
      (ofFiles {} rivalFiles).index.brokenLoads.length = 0 := by
  decide +kernel

end Project

end GodotLint
