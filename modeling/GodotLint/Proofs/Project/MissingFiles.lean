import GodotLint.Check.Assets
import GodotLint.Check.Autoloads
import GodotLint.Proofs.Index.Imports
import GodotLint.Proofs.Ordering
import GodotLint.Proofs.Project.DataFile
import GodotLint.Proofs.Project.Loaded
import GodotLint.Proofs.SortedMap

/-!
# References, and files that are not there

A reference resolves if any of the data files declares its target (`contains_dataIds`). The check counts
the references that resolve and lists all others, so that every reference is in one of the two and none in
both (`jsonRefs_isReferenceReport`).
-/

namespace GodotLint.Check

variable {data : List DataFile} {id : String}

/-! ## References and ids of all files -/

/-- One of the data files declares an id. -/
def IsDeclared (data : List DataFile) (id : String) : Prop := ∃ d ∈ data, id ∈ d.ids.keys

instance (data : List DataFile) (id : String) : Decidable (IsDeclared data id) :=
  inferInstanceAs (Decidable (∃ d ∈ data, id ∈ d.ids.keys))

/-- The references whose target is declared. -/
def resolvedReferences (data : List DataFile) : List DataReference :=
  (data.flatMap (·.references)).filter (IsDeclared data ·.target)

/-- The references whose target is not declared, with their files. -/
def danglingReferences (data : List DataFile) : List (String × DataReference) :=
  data.flatMap fun d => (d.references.filter (¬ IsDeclared data ·.target)).map fun r => (d.file, r)

/-- The index of a project has the ids that its data files declare. -/
theorem contains_dataIds (scripts : List Script) (scenes : List Scene) (settings : Option Settings)
    (files : List String) :
    (Index.build scripts scenes data settings files).dataIds.contains id = true ↔
      IsDeclared data id := by
  rw [SortedMap.contains_iff]
  refine SortedMap.mem_keys_foldl_alter.trans ((or_iff_right List.not_mem_nil).trans ?_)
  rw [List.map_flatMap, List.mem_flatMap, IsDeclared]
  simp

/-- A reference is either resolved or not. -/
theorem resolved_append_dangling_perm (data : List DataFile) :
    (resolvedReferences data ++ (danglingReferences data).map (·.2)).Perm
      (data.flatMap (·.references)) := by
  have hdangling : (danglingReferences data).map (·.2) =
      (data.flatMap (·.references)).filter (¬ IsDeclared data ·.target) := by
    rw [danglingReferences, List.map_flatMap, List.filter_flatMap]
    simp
  rw [hdangling, resolvedReferences]
  simpa using List.filter_append_perm
    (fun r : DataReference => decide (IsDeclared data r.target)) (data.flatMap (·.references))

/-! ## The report -/

/-- A report accounts for all references: it counts those that resolve and lists all others. -/
structure IsReferenceReport (data : List DataFile) (findings : Findings) : Prop where
  resolved : findings.summary.get? "resolved" = some (.nat (resolvedReferences data).length)
  dangling : findings.summary.get? "broken_references" =
    some (.arr ((danglingReferences data).map fun (file, r) => referenceSummary file r))
  references : findings.summary.get? "references" =
    some (.nat ((resolvedReferences data).length + (danglingReferences data).length))
  all : (resolvedReferences data ++ (danglingReferences data).map (·.2)).Perm
    (data.flatMap (·.references))

/-- The data files of a project are read from its documents. -/
theorem exists_of_mem_dataOf {config : Config} {files : List String}
    {documents : List Project.Document} {d : DataFile}
    (hd : d ∈ Project.dataOf config files documents) :
    ∃ document ∈ documents, d = .parse document.path document.text files config.data := by
  obtain ⟨document, hdocument, rfl⟩ := List.mem_map.mp (mem_stableSort.mp hd)
  exact ⟨document, List.mem_of_mem_filter hdocument, rfl⟩

/-- What the check takes for broken are the references whose target is not declared. -/
theorem brokenReferences_build (scripts : List Script) (scenes : List Scene)
    (settings : Option Settings) (files : List String) :
    (data.flatMap fun d => (brokenReferences (.build scripts scenes data settings files) d).map
      fun r => (d.file, r)) = danglingReferences data := by
  refine List.flatMap_congr fun d _ => congrArg _ (List.filter_congr fun r _ => ?_)
  rw [Bool.eq_iff_iff, Bool.not_eq_true', ← Bool.not_eq_true, contains_dataIds, decide_eq_true_iff]

/-- The check finishes with the numbers of all references and of those that are not broken, and with the
broken ones. -/
theorem exists_findings_jsonRefs (c : Context) {broken : List (String × DataReference)}
    (hbroken : (c.project.data.flatMap fun d => (brokenReferences c.index d).map
      fun r => (d.file, r)) = broken) :
    ∃ findings, jsonRefs.run c = .finished findings ∧
      findings.summary.get? "references" =
        some (.nat (c.project.data.flatMap (·.references)).length) ∧
      findings.summary.get? "resolved" =
        some (.nat ((c.project.data.flatMap (·.references)).length - broken.length)) ∧
      findings.summary.get? "broken_references" =
        some (.arr (broken.map fun (file, r) => referenceSummary file r)) := by
  subst hbroken
  refine ⟨_, rfl, ?_, ?_, ?_⟩
  · rw [SortedMap.get?_ofList]
    rfl
  · rw [SortedMap.get?_ofList]
    rfl
  · rw [SortedMap.get?_ofList]
    rfl

/-- **Every reference is accounted for once.** A data file has each reference and each resource of its
document once, in the order of the places, and the check counts a reference as resolved if one of the data
files declares its target, and lists it otherwise. -/
theorem jsonRefs_isReferenceReport :
    (∀ file text files names,
      DataFile.IsReading text files names (.parse file text files names)) ∧
    ∀ root config sources documents files faults options,
      let project := Project.assemble root config sources documents files faults
      (∀ d ∈ project.data, ∃ document ∈ documents,
        d = .parse document.path document.text files config.data) ∧
      ∃ findings, jsonRefs.run ⟨project, options⟩ = .finished findings ∧
        IsReferenceReport project.data findings := by
  refine ⟨DataFile.parse_isReading, fun root config sources documents files faults options => ?_⟩
  intro project
  refine ⟨fun d hd => exists_of_mem_dataOf hd, ?_⟩
  have hbroken : (project.data.flatMap fun d => (brokenReferences project.index d).map
      fun r => (d.file, r)) = danglingReferences project.data := brokenReferences_build ..
  obtain ⟨findings, hrun, hreferences, hresolved, hdangling⟩ :=
    exists_findings_jsonRefs ⟨project, options⟩ hbroken
  -- the number of resolved references is what the broken ones leave of all
  have hall := resolved_append_dangling_perm project.data
  have hlength := hall.length_eq
  rw [List.length_append, List.length_map] at hlength
  refine ⟨findings, hrun, ?_, hdangling, ?_, hall⟩
  · rw [hresolved, ← hlength, Nat.add_sub_cancel]
  · rw [hreferences, ← hlength]

end GodotLint.Check

/-!
## Files that are not there

Scenes, scripts, data files and the settings name files of the project. A name is missing if it
resolves to a path that is none of the files (`IsMissing`). Scenes and scripts report exactly these
names. A data file compares what follows `res://` as it is written, so it agrees unless a file is
named by a roundabout path, and a singleton counts as missing whenever its path does not resolve at
all (`judgesFiles_of_isLoaded`, `missing_for_some_readers_only`).
-/

namespace GodotLint

open Text

/-- A reference from a file names a file that is not there: it resolves to a path, which is none of
the files. -/
def IsMissing (files : List String) (source target : String) : Prop :=
  ∃ path, Path.resolveString? source target = some path ∧ path ∉ files

variable {files : List String} {file source target : String}

theorem isMissing_iff : IsMissing files source target ↔
    (Path.resolveString? source target).all files.contains = false := by
  rw [IsMissing]
  cases Path.resolveString? source target <;> simp

instance (files : List String) (source target : String) : Decidable (IsMissing files source target) :=
  decidable_of_iff _ isMissing_iff.symm

/-! ## Scenes -/

namespace Scene

variable {s : Scene} {numbered : List Char × Nat} {text : List Char}

/-- The path of the resource that a line declares. -/
def declaredPath? (line : List Char) : Option String :=
  match header? line with
  | none => none
  | some (kind, attrs) =>
    if kind == "ext_resource" && (attrs.get? "id").isSome then some ((attrs.get? "path").getD "")
    else none

/-- The fault of a line that declares a missing resource. -/
def missingFault? (files : List String) (file : String) (numbered : List Char × Nat) :
    Option (Nat × String) :=
  (declaredPath? numbered.1).bind fun path =>
    if isPresent file path files then none else some (numbered.2, path)

/-- The faults that tell of missing resources. -/
def missingFaults (s : Scene) : List (Nat × String) :=
  s.faults.filterMap fun (line, fault) =>
    match fault with
    | .missingResource path => some (line, path)
    | _ => none

/-- Every resource says of its path whether it is there. -/
def KnowsPresence (files : List String) (s : Scene) : Prop :=
  ∀ entry ∈ s.resources.entries, entry.2.present = isPresent s.file entry.2.path files

/-- What a scene takes for present is what is not missing; the empty path names nothing. -/
theorem isPresent_eq_false_iff :
    isPresent file target files = false ↔ target ≠ "" ∧ IsMissing files file target := by
  rw [isPresent, Bool.or_eq_false_iff, isMissing_iff, Bool.eq_false_iff, ne_eq, String.isEmpty_iff]

theorem mem_missingFaults_iff {number : Nat} {path : String} :
    (number, path) ∈ s.missingFaults ↔ (number, SceneFault.missingResource path) ∈ s.faults := by
  rw [missingFaults, List.mem_filterMap]
  constructor
  · rintro ⟨⟨line, fault⟩, hmem, hfault⟩
    cases fault <;> simp_all
  · intro h
    exact ⟨_, h, rfl⟩

/-- A line declares at most one resource, and its fault if it is missing. -/
theorem declare_spec (files : List String) (s : Scene) (numbered : List Char × Nat) :
    (declare files s numbered).file = s.file ∧
      (declare files s numbered).missingFaults =
        s.missingFaults ++ (missingFault? files s.file numbered).toList ∧
      (KnowsPresence files s → KnowsPresence files (declare files s numbered)) := by
  obtain ⟨line, number⟩ := numbered
  rw [declare, missingFault?, declaredPath?]
  cases hheader : header? line with
  | none => simp
  | some header =>
      obtain ⟨kind, attrs⟩ := header
      cases hkind : kind == "ext_resource" with
      | false => simp [hkind]
      | true =>
          cases hid : attrs.get? "id" with
          | none => simp [hkind, hid]
          | some id =>
              simp only [hkind, hid, Option.isSome_some, Bool.and_self, if_true,
                Option.bind_some]
              refine ⟨trivial, ?_, fun h => ?_⟩
              · cases isPresent s.file ((attrs.get? "path").getD "") files <;> simp [missingFaults]
              · exact SortedMap.forall_alter
                  (P := fun r : SceneResource => r.present = isPresent s.file r.path files)
                  rfl (fun _ _ => rfl) h

/-- Taking declarations line by line finds the fault of each line that declares a missing resource.
-/
theorem foldl_declare_spec (files : List String) (s : Scene) (numbered : List (List Char × Nat)) :
    (numbered.foldl (declare files) s).file = s.file ∧
      (numbered.foldl (declare files) s).missingFaults =
        s.missingFaults ++ numbered.filterMap (missingFault? files s.file) ∧
      (KnowsPresence files s → KnowsPresence files (numbered.foldl (declare files) s)) := by
  induction numbered generalizing s with
  | nil => simp
  | cons line rest ih =>
      obtain ⟨hfile, hfaults, hknows⟩ := declare_spec files s line
      obtain ⟨ihfile, ihfaults, ihknows⟩ := ih (declare files s line)
      rw [List.foldl_cons]
      refine ⟨ihfile.trans hfile, ?_, ihknows ∘ hknows⟩
      rw [ihfaults, hfaults, hfile, List.filterMap_cons, List.append_assoc]
      cases missingFault? files s.file line <;> rfl

/-- What reading the tree leaves alone: the file, its resources and the faults of missing ones. -/
structure SameResources (s t : Scene) : Prop where
  file : s.file = t.file
  resources : s.resources = t.resources
  missingFaults : s.missingFaults = t.missingFaults

theorem SameResources.trans {s t u : Scene} (h : SameResources s t) (h' : SameResources t u) :
    SameResources s u :=
  ⟨h.file.trans h'.file, h.resources.trans h'.resources, h.missingFaults.trans h'.missingFaults⟩

/-- Adding faults that tell of no missing resource leaves the resources alone. -/
theorem SameResources.of_faults {t : Scene} {faults : List (Nat × SceneFault)}
    (hfile : t.file = s.file) (hresources : t.resources = s.resources)
    (hfaults : t.faults = s.faults ++ faults)
    (hnew : ∀ fault ∈ faults, ∀ path, fault.2 ≠ .missingResource path) : SameResources t s := by
  refine ⟨hfile, hresources, ?_⟩
  have hnone : faults.filterMap (fun (line, fault) =>
      match fault with
      | .missingResource path => some (line, path)
      | _ => none) = [] := by
    rw [List.filterMap_eq_nil_iff]
    rintro ⟨line, fault⟩ hmem
    cases fault with
    | missingResource path => exact absurd rfl (hnew _ hmem path)
    | duplicateSibling path => rfl
    | unknownResource id => rfl
  unfold Scene.missingFaults
  rw [hfaults, List.filterMap_append, hnone, List.append_nil]

/-- The use of a resource that was never declared is no missing resource. -/
theorem not_missing_of_mem_resolveUse {value : List Char} {line : Nat} {fault : Nat × SceneFault}
    (h : fault ∈ (s.resolveUse value line).2) (path : String) :
    fault.2 ≠ .missingResource path := by
  rw [resolveUse] at h
  split at h
  · exact absurd h List.not_mem_nil
  · dsimp only at h
    split at h
    · exact absurd h List.not_mem_nil
    · rw [List.mem_singleton] at h
      subst h
      exact SceneFault.noConfusion

theorem addNode_sameResources (s : Scene) (attrs : SortedMap String) (line : Nat) :
    SameResources (s.addNode attrs line) s := by
  refine .of_faults rfl rfl (List.append_assoc ..) fun fault hfault path => ?_
  rcases List.mem_append.mp hfault with hfault | hfault
  · cases hsibling : s.nodes.any (siblings (attrs.get? "parent") ((attrs.get? "name").getD "")) with
    | true =>
        rw [if_pos hsibling, List.mem_singleton] at hfault
        subst hfault
        exact SceneFault.noConfusion
    | false =>
        rw [hsibling] at hfault
        exact absurd hfault List.not_mem_nil
  · cases hinstance : attrs.get? "instance" with
    | none =>
        rw [hinstance] at hfault
        exact absurd hfault List.not_mem_nil
    | some value =>
        rw [hinstance] at hfault
        exact not_missing_of_mem_resolveUse hfault path

theorem setScript_sameResources (s : Scene) (value : List Char) (line : Nat) :
    SameResources (s.setScript value line) s := by
  rw [setScript]
  split
  · exact ⟨rfl, rfl, rfl⟩
  · exact .of_faults rfl rfl rfl fun fault hfault path => not_missing_of_mem_resolveUse hfault path

/-- Reading a line of the tree declares no resource and misses none. -/
theorem readTree_sameResources (state : Scene × Bool) (numbered : List Char × Nat) :
    SameResources (readTree state numbered).1 state.1 := by
  obtain ⟨s, inNode⟩ := state
  obtain ⟨line, number⟩ := numbered
  unfold readTree
  dsimp only
  split
  · split_ifs
    · exact addNode_sameResources ..
    · exact ⟨rfl, rfl, rfl⟩
    · exact ⟨rfl, rfl, rfl⟩
  · split
    · exact setScript_sameResources ..
    · exact ⟨rfl, rfl, rfl⟩

theorem foldl_readTree_sameResources (state : Scene × Bool) (numbered : List (List Char × Nat)) :
    SameResources (numbered.foldl readTree state).1 state.1 := by
  induction numbered generalizing state with
  | nil => exact ⟨rfl, rfl, rfl⟩
  | cons line rest ih => exact (ih (readTree state line)).trans (readTree_sameResources state line)

/-- A scene says of the resources that a text declares which are missing. -/
structure JudgesResources (files : List String) (text : List Char) (s : Scene) : Prop where
  resources : ∀ entry ∈ s.resources.entries, entry.2.path ≠ "" →
    (entry.2.present = false ↔ IsMissing files s.file entry.2.path)
  faults : ∀ number path, (number, SceneFault.missingResource path) ∈ s.faults ↔
    ∃ line, (line, number) ∈ (lines text).zipIdx 1 ∧ declaredPath? line = some path ∧
      path ≠ "" ∧ IsMissing files s.file path

theorem missingFault?_eq_some_iff {number : Nat} {path : String} :
    missingFault? files file numbered = some (number, path) ↔
      numbered.2 = number ∧ declaredPath? numbered.1 = some path ∧
        path ≠ "" ∧ IsMissing files file path := by
  rw [missingFault?, Option.bind_eq_some_iff, ← isPresent_eq_false_iff]
  constructor
  · rintro ⟨declared, hdeclared, hsome⟩
    split_ifs at hsome with hpresent
    cases hsome
    exact ⟨rfl, hdeclared, Bool.eq_false_iff.mpr hpresent⟩
  · rintro ⟨rfl, hdeclared, hpresent⟩
    exact ⟨path, hdeclared, by rw [hpresent]; rfl⟩

theorem file_parse (file : String) (text : List Char) (files : List String) :
    (parse file text files).file = file :=
  (foldl_readTree_sameResources ..).file.trans (foldl_declare_spec files { file } _).1

/-- Scenes miss exactly the resources whose paths are missing. -/
theorem parse_judgesResources (file : String) (text : List Char) (files : List String) :
    JudgesResources files text (parse file text files) := by
  have htree := foldl_readTree_sameResources
    (((lines text).zipIdx 1).foldl (declare files) { file }, false) ((lines text).zipIdx 1)
  obtain ⟨hfile, hfaults, hknows⟩ := foldl_declare_spec files { file } ((lines text).zipIdx 1)
  refine ⟨fun entry hentry hpath => ?_, fun number path => ?_⟩
  · have hpresent := hknows (fun _ h => absurd h List.not_mem_nil) entry (htree.resources ▸ hentry)
    rw [hfile] at hpresent
    rw [hpresent, isPresent_eq_false_iff, and_iff_right hpath, file_parse]
  · have hmissing : (parse file text files).missingFaults =
        ((lines text).zipIdx 1).filterMap (missingFault? files file) := by
      rw [parse, htree.missingFaults, hfaults]
      rfl
    rw [← mem_missingFaults_iff, hmissing, List.mem_filterMap, file_parse]
    constructor
    · rintro ⟨⟨line, number⟩, hmem, hfault⟩
      obtain ⟨rfl, hdeclared⟩ := missingFault?_eq_some_iff.mp hfault
      exact ⟨line, hmem, hdeclared⟩
    · rintro ⟨line, hmem, hdeclared⟩
      exact ⟨(line, number), hmem, missingFault?_eq_some_iff.mpr ⟨rfl, hdeclared⟩⟩

end Scene

/-! ## Scripts -/

namespace Index

variable {scripts : List Script} {scenes : List Scene} {data : List DataFile}
  {settings : Option Settings}

/-- A load of a file is broken exactly if the file is missing, as scripts are files. -/
theorem loadTarget_eq_missing_iff_isMissing {paths : List String} {load : Load}
    (h : paths ⊆ files) :
    loadTarget paths files file load = .missing ↔ IsMissing files file load.target := by
  rw [loadTarget_eq_missing_iff, IsMissing]
  refine exists_congr fun path => and_congr_right fun _ => and_iff_right_of_imp ?_
  exact fun hfile hscript => hfile (h hscript)

theorem mem_brokenLoads_iff {b : BrokenLoad} (h : scripts.map (·.path) ⊆ files) :
    b ∈ (build scripts scenes data settings files).brokenLoads ↔
      ∃ s ∈ scripts, s.path = b.file ∧ b.load ∈ s.facts.loads ∧
        IsMissing files b.file b.load.target := by
  obtain ⟨file, load⟩ := b
  change _ ∈ scripts.flatMap (brokenLoadsOf (scripts.map (·.path)) files) ↔ _
  rw [List.mem_flatMap]
  refine exists_congr fun s => and_congr_right fun _ => ?_
  rw [brokenLoadsOf, List.mem_filterMap]
  constructor
  · rintro ⟨declared, hmem, hbroken⟩
    split at hbroken
    next hmissing =>
      cases hbroken
      exact ⟨rfl, hmem, (loadTarget_eq_missing_iff_isMissing h).mp hmissing⟩
    next => cases hbroken
  · rintro ⟨rfl, hmem, hmissing⟩
    refine ⟨load, hmem, ?_⟩
    rw [(loadTarget_eq_missing_iff_isMissing h).mpr hmissing]

end Index

/-! ## Singletons -/

/-- A singleton counts as absent if its path is missing or does not resolve. -/
theorem Index.present_eq_false_iff {scripts : List Script} {scenes : List Scene}
    {data : List DataFile} {settings : Option Settings} {a : AutoloadEntry}
    (h : a ∈ (build scripts scenes data settings files).autoloads) :
    a.present = false ↔
      IsMissing files "" a.decl.path ∨ Path.resolveString? "" a.decl.path = none := by
  cases settings with
  | none => exact absurd h List.not_mem_nil
  | some settings =>
      obtain ⟨decl, -, rfl⟩ := List.mem_map.mp h
      rw [autoloadEntry, IsMissing]
      cases Path.resolveString? "" decl.path <;> simp

/-- The check of singletons reports those that count as absent. -/
theorem Check.missing_autoload_script_iff {a : AutoloadEntry} :
    (∃ issue, autoloadIssue? a = some issue ∧ issue.kind = "missing_autoload_script") ↔
      a.present = false := by
  rw [autoloadIssue?]
  cases a.present with
  | false => simp
  | true =>
      cases a.uses.isEmpty with
      | false => simp
      | true => simp

/-! ## Data files -/

/-- A resource path in a data file resolves to what follows `res://`, in its shortest form. -/
theorem isMissing_resource_iff {rest : String}
    (h : target.toList = "res://".toList ++ rest.toList) :
    IsMissing files source target ↔ str (Path.normalize rest.toList) ∉ files := by
  have hrest : afterPrefix? Path.resourcePrefix target.toList = some rest.toList :=
    afterPrefix?_eq_some.mpr h
  rw [IsMissing, Path.resolveString?, Path.resolve?, hrest]
  simp

/-- A data file looks for what follows `res://` among the files. -/
theorem DataFile.exists_of_mem_resources {text : List Char} {names : DataNames} {r : DataResource}
    (h : r ∈ (parse file text files names).resources) : ∃ rest : String,
      r.target.toList = "res://".toList ++ rest.toList ∧ r.present = files.contains rest := by
  rw [parse] at h
  split at h
  next document _ =>
    obtain ⟨leaf, -, hleaf⟩ := List.mem_filterMap.mp h
    obtain ⟨⟨rest, hrest, hpresent⟩, htarget, -⟩ := resource?_eq_some_iff.mp hleaf
    exact ⟨rest, htarget ▸ hrest, hpresent⟩
  next => exact absurd h List.not_mem_nil

/-! ## Projects -/

namespace Project

/-- What the four readers of a project take for missing. -/
structure JudgesFiles (p : Project) : Prop where
  scenes : ∀ s ∈ p.scenes, ∃ text, s = .parse s.file text p.files ∧
    Scene.JudgesResources p.files text s
  loads : ∀ b, b ∈ p.index.brokenLoads ↔ ∃ s ∈ p.scripts, s.path = b.file ∧
    b.load ∈ s.facts.loads ∧ IsMissing p.files b.file b.load.target
  /-- A data file agrees exactly if the path is in the project as it is written or not even in its
  shortest form. -/
  data : ∀ d ∈ p.data, ∀ r ∈ d.resources, ∃ rest : String,
    r.target.toList = "res://".toList ++ rest.toList ∧ (r.present = false ↔ rest ∉ p.files) ∧
      ((r.present = false ↔ IsMissing p.files d.file r.target) ↔
        (rest ∈ p.files ↔ str (Path.normalize rest.toList) ∈ p.files))
  /-- The settings agree exactly on the paths that resolve. -/
  autoloads : ∀ a ∈ p.index.autoloads,
    ((∃ issue, Check.autoloadIssue? a = some issue ∧ issue.kind = "missing_autoload_script") ↔
      a.present = false) ∧
    ((a.present = false ↔ IsMissing p.files "" a.decl.path) ↔
      Path.resolveString? "" a.decl.path ≠ none)

theorem assemble_judgesFiles (root : String) (config : Config) {sources : List Source}
    (documents : List Document) {files : List String} (faults : List FileFault)
    (hfiles : ∀ s ∈ sources, s.path ∈ files) :
    JudgesFiles (assemble root config sources documents files faults) where
  scenes s hs := by
    obtain ⟨document, -, rfl⟩ := List.mem_map.mp (mem_stableSort.mp hs)
    refine ⟨document.text, ?_, Scene.parse_judgesResources ..⟩
    rw [Scene.file_parse]
    rfl
  loads b := by
    refine Index.mem_brokenLoads_iff fun path hpath => ?_
    rw [List.map_map] at hpath
    obtain ⟨s, hs, rfl⟩ := List.mem_map.mp hpath
    exact hfiles s hs
  data d hd r hr := by
    obtain ⟨document, -, rfl⟩ := Check.exists_of_mem_dataOf hd
    obtain ⟨rest, hrest, hpresent⟩ := DataFile.exists_of_mem_resources hr
    have habsent : r.present = false ↔ rest ∉ files := by
      rw [hpresent, ← Bool.not_eq_true, List.contains_iff_mem]
    refine ⟨rest, hrest, habsent, ?_⟩
    rw [habsent, isMissing_resource_iff hrest, files_assemble, not_iff_not]
  autoloads a ha := by
    refine ⟨Check.missing_autoload_script_iff, ?_⟩
    rw [Index.present_eq_false_iff ha, files_assemble, or_iff_left_iff_imp]
    constructor
    · intro himp hnone
      obtain ⟨path, hpath, -⟩ := himp hnone
      exact Option.some_ne_none path (hpath.symm.trans hnone)
    · exact fun hsome hnone => absurd hnone hsome

/-- A project that a program may meet is put together from sources that are among its files. -/
theorem IsLoaded.exists_assemble {p : Project} (h : p.IsLoaded) :
    ∃ root config sources documents files faults,
      p = assemble root config sources documents files faults ∧ ∀ s ∈ sources, s.path ∈ files := by
  have hassemble : ∃ root config sources documents files faults,
      p = assemble root config sources documents files faults := by
    cases h with
    | load h =>
        obtain ⟨documents, faults, hp⟩ := exists_assemble_of_load h
        exact ⟨_, _, _, documents, _, faults, hp⟩
    | ofFiles config files => exact ⟨_, _, _, _, _, _, rfl⟩
  obtain ⟨root, config, sources, documents, files, faults, rfl⟩ := hassemble
  refine ⟨root, config, sources, documents, files, faults, rfl, fun s hs => ?_⟩
  have hscript : Script.ofSource s ∈
      (assemble root config sources documents files faults).scripts := List.mem_map_of_mem hs
  exact List.contains_iff_mem.mp (hasFile_of_mem_scripts h hscript)

/-- **Which references to missing files are reported**, for every project that a program may meet.
-/
theorem judgesFiles_of_isLoaded {p : Project} (h : p.IsLoaded) : JudgesFiles p := by
  obtain ⟨root, config, sources, documents, files, faults, rfl, hfiles⟩ := h.exists_assemble
  exact assemble_judgesFiles root config documents faults hfiles

/-- A project with a data file that names a file by a roundabout path, and a singleton whose path
does not resolve. -/
def roundabout : Project :=
  .ofFiles {} [("project.godot", "[autoload]\nA=\"*uid://c1\"\n"),
    ("a.json", "[\"res://art//hero.png\"]"), ("art/hero.png", "")]

theorem judgesFiles_of_isLoaded_roundabout : roundabout.IsLoaded ∧ JudgesFiles roundabout :=
  ⟨.ofFiles .., judgesFiles_of_isLoaded (.ofFiles ..)⟩

/-- The data file takes the file for missing and the settings a path that names none, though neither
is missing. -/
theorem missing_for_some_readers_only :
    (∃ d ∈ roundabout.data, ∃ r ∈ d.resources,
      r.present = false ∧ ¬ IsMissing roundabout.files d.file r.target) ∧
    ∃ a ∈ roundabout.index.autoloads,
      a.present = false ∧ ¬ IsMissing roundabout.files "" a.decl.path := by
  decide +kernel

end Project

end GodotLint
