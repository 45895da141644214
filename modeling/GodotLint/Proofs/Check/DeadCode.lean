import GodotLint.Check.Usage
import GodotLint.Proofs.Script.Comments
import GodotLint.Proofs.Index.Classes
import GodotLint.Proofs.Project.Loaded
import GodotLint.Proofs.Script.Strings

/-!
# What is reported as dead

A private function or member that is reported can be deleted as far as its name is concerned: in the code of
all scripts the name occurs once at most, in the file that declares it, no literal spells it, and of a
function neither the engine nor a scene knows the name (`deadCode_reportsUnused`). One kind of literal is not
looked at, those on lines that define constants. A function that is called through such a constant is
reported (`deadCode_overlooks_constant`).
-/

namespace GodotLint.Check

open Index (identifiersOf identifierTable placedIdentifiers mem_placedIdentifiers)
open Script (IsLiteralIn isConstantLine)

variable {p : Project} {scripts : List Script} {ix : Index} {file name : String} {i : Issue}

/-! ## Names that nothing uses -/

/-- Nothing uses a name that a file declares. -/
structure IsUnused (p : Project) (file name : String) : Prop where
  /-- The name occurs in the code once at most, ... -/
  once : (p.scripts.flatMap fun s => identifiersOf s.source).count name ≤ 1
  /-- ... and in the file. -/
  home : ∀ s ∈ p.scripts, name ∈ identifiersOf s.source → s.path = file
  /-- No literal spells it, unless on a line that defines a constant. -/
  unspelled : ∀ s ∈ p.scripts, ∀ raw ∈ s.source.lines, isConstantLine (Line.code raw) = false →
    ¬ IsLiteralIn (Line.code raw) name.toList

/-- A private function can be deleted. -/
structure IsDeadFunction (p : Project) (file : String) (f : Function) : Prop where
  isPrivate : f.isPrivate = true
  not_hook : f.name ∉ Naming.lifecycleHooks
  not_connected : ∀ scene ∈ p.scenes, ∀ c ∈ scene.connections, c.method ≠ f.name
  unused : IsUnused p file f.name

/-- A private constant or variable of a class can be deleted. -/
structure IsDeadMember (p : Project) (file : String) (d : Declaration) : Prop where
  kind : d.kind = .constant ∨ d.kind = .variable
  isPrivate : d.isPrivate = true
  isMember : d.isMember = true
  not_exported : d.exportAnnotation? = none
  unused : IsUnused p file d.name

/-- A name without a use besides its declaration occurs in the file of the declaration only, ... -/
theorem path_eq_of_usesOf_eq_zero (hix : ix.identifiers = identifierTable scripts)
    (h : usesOf ix name file = 0) : ∀ s ∈ scripts, name ∈ identifiersOf s.source → s.path = file := by
  intro s hs hname
  by_contra hother
  have hplaced : (name, s.path) ∈ placedIdentifiers scripts :=
    mem_placedIdentifiers.mpr ⟨s, hs, hname, rfl⟩
  have helsewhere : (s.path, (placedIdentifiers scripts).count (name, s.path)) ∈
      (ix.occurrences name).filter (·.1 != file) :=
    List.mem_filter.mpr ⟨Index.count_of_mem_occurrences hix hplaced, bne_iff_ne.mpr hother⟩
  have hnone := sumOf_eq_zero_iff.mp (Nat.add_eq_zero_iff.mp h).2 _ helsewhere
  exact (List.count_pos_iff.mpr hplaced).ne' hnone

/-- ... where it occurs once at most. -/
theorem count_le_one_of_usesOf_eq_zero (hix : ix.identifiers = identifierTable scripts)
    (h : usesOf ix name file = 0) :
    (scripts.flatMap fun s => identifiersOf s.source).count name ≤ 1 := by
  rw [Index.count_identifiersOf (path_eq_of_usesOf_eq_zero hix h), ← Index.occurrencesIn_eq hix]
  exact Nat.sub_eq_zero_iff_le.mp (Nat.add_eq_zero_iff.mp h).1

/-- What a literal spells is one of the strings of the index, apart from constants. -/
theorem mem_stringValues_of_isLiteralIn (hp : p.IsLoaded) {s : Script} (hs : s ∈ p.scripts)
    {raw : List Char} (hraw : raw ∈ s.source.lines) (hconstant : isConstantLine (Line.code raw) = false)
    (hname : IsLiteralIn (Line.code raw) name.toList) : name ∈ p.index.stringValues := by
  rw [Project.index_eq_build hp, Index.build]
  refine mem_sortedSet.mpr (List.mem_flatMap.mpr ⟨s, hs, ?_⟩)
  obtain ⟨l, hl, hvalue⟩ := Script.exists_mem_strings_of_isLiteralIn hraw
    (s.source.not_mem_lines raw hraw) hconstant hname
  rw [str, String.ofList_toList] at hvalue
  rw [Project.facts_of_mem_scripts hp hs, ← hvalue]
  exact List.mem_map_of_mem hl

/-- A name that counts as unused is not used. -/
theorem isUnused_of_usesOf_eq_zero (hp : p.IsLoaded) (huses : usesOf p.index name file = 0)
    (hspelled : name ∉ p.index.stringValues) : IsUnused p file name := by
  have hix : p.index.identifiers = identifierTable p.scripts := by
    rw [Project.index_eq_build hp, Index.build]
  exact
    { once := count_le_one_of_usesOf_eq_zero hix huses
      home := path_eq_of_usesOf_eq_zero hix huses
      unspelled := fun s hs raw hraw hconstant hname =>
        hspelled (mem_stringValues_of_isLiteralIn hp hs hraw hconstant hname) }

/-- A method that a scene connects a signal to is one of the methods of the index. -/
theorem mem_sceneMethods (hp : p.IsLoaded) {scene : Scene} (hscene : scene ∈ p.scenes)
    {c : Connection} (hc : c ∈ scene.connections) (hmethod : c.method ≠ "") :
    c.method ∈ p.index.sceneMethods := by
  rw [Project.index_eq_build hp, Index.build]
  refine mem_sortedSet.mpr (List.mem_flatMap.mpr ⟨scene, hscene, ?_⟩)
  exact List.mem_filter.mpr ⟨List.mem_map_of_mem hc, bne_iff_ne.mpr hmethod⟩

/-! ## The check -/

theorem isDeadFunction_of_issue (hp : p.IsLoaded) {f : Function}
    (h : deadFunctionIssue? p.index file f = some i) : IsDeadFunction p file f := by
  rw [deadFunctionIssue?, Option.ite_none_left_eq_some] at h
  simp only [isCalledByName, Bool.not_eq_true', Bool.or_eq_true, List.contains_iff_mem, bne_iff_ne,
    not_or, Decidable.not_not, Bool.not_eq_false] at h
  obtain ⟨⟨⟨hprivate, ⟨hhook, hscene⟩, hspelled⟩, huses⟩, -⟩ := h
  refine ⟨hprivate, hhook, fun scene hmem c hc hmethod => ?_,
    isUnused_of_usesOf_eq_zero hp huses hspelled⟩
  have hne : c.method ≠ "" := by
    intro hempty
    rw [Function.isPrivate, ← hmethod, hempty] at hprivate
    exact absurd hprivate (by decide +kernel)
  exact hscene (hmethod ▸ mem_sceneMethods hp hmem hc hne)

theorem isDeadMember_of_issue (hp : p.IsLoaded) {d : Declaration}
    (h : deadMemberIssue? p.index file d = some i) : IsDeadMember p file d := by
  have hguard : (d.kind = .constant ∨ d.kind = .variable) ∧ ¬ (!d.isPrivate || !d.isMember ||
      d.exportAnnotation?.isSome || p.index.stringValues.contains d.name ||
        usesOf p.index d.name file != 0) = true := by
    rw [deadMemberIssue?] at h
    -- there is no issue for the other kinds
    cases hkind : d.kind <;> rw [hkind] at h <;> first
      | exact ⟨.inl rfl, (Option.ite_none_left_eq_some.mp h).1⟩
      | exact ⟨.inr rfl, (Option.ite_none_left_eq_some.mp h).1⟩
      | cases h
  simp only [Bool.or_eq_true, Bool.not_eq_true', List.contains_iff_mem, bne_iff_ne, not_or,
    Decidable.not_not, Bool.not_eq_false, Bool.not_eq_true, Option.isSome_eq_false_iff,
    Option.isNone_iff_eq_none] at hguard
  obtain ⟨hkind, ⟨⟨⟨hprivate, hmember⟩, hexport⟩, hspelled⟩, huses⟩ := hguard
  exact ⟨hkind, hprivate, hmember, hexport, isUnused_of_usesOf_eq_zero hp huses hspelled⟩

/-- What an issue of a function tells. -/
theorem eq_of_deadFunctionIssue? {f : Function} (h : deadFunctionIssue? ix file f = some i) :
    i.kind = "unused_private_function" ∧ i.file = file ∧ i.line = f.line ∧
      i.message = "private function " ++ f.name ++ "() is never called" := by
  rw [deadFunctionIssue?, Option.ite_none_left_eq_some] at h
  obtain ⟨-, h⟩ := h
  cases h
  exact ⟨rfl, rfl, rfl, rfl⟩

/-- What an issue of a member tells. -/
theorem eq_of_deadMemberIssue? {d : Declaration} (h : deadMemberIssue? ix file d = some i) :
    i.kind = "unused_private_member" ∧ i.file = file ∧ i.line = d.line ∧ ∃ what,
      i.message = "private " ++ what ++ " '" ++ d.name ++ "' is never read or written" := by
  simp only [deadMemberIssue?] at h
  split at h
  · cases h
  · obtain ⟨-, h⟩ := Option.ite_none_left_eq_some.mp h
    cases h
    exact ⟨rfl, rfl, rfl, _, rfl⟩

/-- What an issue of a class tells. -/
theorem kind_of_deadClassIssue? {entry : ClassEntry} (h : deadClassIssue? ix entry = some i) :
    i.kind = "unused_class" := by
  rw [deadClassIssue?, Option.ite_none_left_eq_some] at h
  obtain ⟨-, h⟩ := h
  cases h
  rfl

/-- An issue is about a private function that can be deleted. -/
def IsAboutFunction (p : Project) (i : Issue) : Prop :=
  ∃ s ∈ p.scripts, ∃ f ∈ s.facts.functions, i.file = s.path ∧ i.line = f.line ∧
    i.message = "private function " ++ f.name ++ "() is never called" ∧ IsDeadFunction p s.path f

/-- An issue is about a private member that can be deleted. -/
def IsAboutMember (p : Project) (i : Issue) : Prop :=
  ∃ s ∈ p.scripts, ∃ d ∈ s.facts.declarations, i.file = s.path ∧ i.line = d.line ∧
    (∃ what, i.message = "private " ++ what ++ " '" ++ d.name ++ "' is never read or written") ∧
    IsDeadMember p s.path d

/-- **What is reported as dead is not used**, for every project that a program may meet. -/
theorem deadCode_reportsUnused (hp : p.IsLoaded) (options : Options) :
    ∃ findings, deadCode.run ⟨p, options⟩ = .finished findings ∧ ∀ i ∈ findings.issues,
      (i.kind = "unused_private_function" ∧ IsAboutFunction p i) ∨
      (i.kind = "unused_private_member" ∧ IsAboutMember p i) ∨ i.kind = "unused_class" := by
  refine ⟨_, rfl, fun i hi => ?_⟩
  simp only [List.mem_append, List.mem_flatMap, List.mem_filterMap] at hi
  rcases hi with ⟨s, hs, ⟨f, hf, hissue⟩ | ⟨d, hd, hissue⟩⟩ | ⟨entry, -, hissue⟩
  · obtain ⟨hkind, hfile, hline, hmessage⟩ := eq_of_deadFunctionIssue? hissue
    exact .inl ⟨hkind, s, hs, f, hf, hfile, hline, hmessage, isDeadFunction_of_issue hp hissue⟩
  · obtain ⟨hkind, hfile, hline, hmessage⟩ := eq_of_deadMemberIssue? hissue
    exact .inr (.inl ⟨hkind, s, hs, d, hd, hfile, hline, hmessage, isDeadMember_of_issue hp hissue⟩)
  · exact .inr (.inr (kind_of_deadClassIssue? hissue))

/-- A project with a function and a variable that nothing uses. -/
def leftovers : Project :=
  .ofFiles {} [("a.gd", "var _size = 3\nfunc _orphan():\n\tpass\n")]

theorem deadCode_reportsUnused_leftovers : leftovers.IsLoaded ∧
    ∃ findings, deadCode.run ⟨leftovers, {}⟩ = .finished findings ∧
      (∃ i ∈ findings.issues, i.line = 2 ∧ IsAboutFunction leftovers i) ∧
      ∃ i ∈ findings.issues, i.line = 1 ∧ IsAboutMember leftovers i := by
  obtain ⟨findings, hrun, hall⟩ := deadCode_reportsUnused (p := leftovers) (.ofFiles ..) {}
  refine ⟨.ofFiles .., findings, hrun, ?_⟩
  have hfound : ∃ findings, deadCode.run ⟨leftovers, {}⟩ = .finished findings ∧
      (∃ i ∈ findings.issues, i.line = 2 ∧ i.kind = "unused_private_function") ∧
      ∃ i ∈ findings.issues, i.line = 1 ∧ i.kind = "unused_private_member" :=
    ⟨_, rfl, by decide +kernel⟩
  obtain ⟨_, hrun', ⟨i, hi, hline, hkind⟩, j, hj, hline', hkind'⟩ := hfound
  obtain rfl := Outcome.finished.inj (hrun.symm.trans hrun')
  refine ⟨⟨i, hi, hline, ?_⟩, j, hj, hline', ?_⟩
  · simpa [hkind] using hall i hi
  · simpa [hkind'] using hall j hj

/-! ## A name on a constant line -/

/-- A project in which a function is called through a constant that holds its name. -/
def callback : Project := .ofFiles {}
  [("a.gd", "const HIT = \"_on_hit\"\nfunc f():\n\tcall(HIT)\nfunc _on_hit():\n\tpass\n")]

/-- The function is reported, though a literal spells its name. -/
theorem deadCode_overlooks_constant :
    (∃ findings, deadCode.run ⟨callback, {}⟩ = .finished findings ∧ ∃ i ∈ findings.issues,
      i.kind = "unused_private_function" ∧ i.message = "private function _on_hit() is never called") ∧
      ∃ s ∈ callback.scripts, ∃ raw ∈ s.source.lines, IsLiteralIn (Line.code raw) "_on_hit".toList := by
  refine ⟨⟨_, rfl, by decide +kernel⟩, ?_⟩
  have hline : ∃ s ∈ callback.scripts, "const HIT = \"_on_hit\"".toList ∈ s.source.lines := by
    decide +kernel
  obtain ⟨s, hs, hraw⟩ := hline
  have hbody : Quoting.LiteralBody '"' "_on_hit".toList := .of_plain (by simp)
  exact ⟨s, hs, _, hraw, "const HIT = ".toList, '"', [], by decide +kernel, .inl rfl,
    by decide +kernel, hbody⟩

end GodotLint.Check
