import GodotLint.Check.Names
import GodotLint.Proofs.Index.Classes
import GodotLint.Proofs.Project.Loaded
import GodotLint.Proofs.Script.Names

/-!
# Classes of the same name

The index has the sites of a class in the order of the scripts, and the check reports every two of them:
each site once for each site before it (`mem_pairs_iff`, `nodup_pairs`). An issue tells by its text which
class it is about, since no name of a class has a quotation mark in it (`isAboutClass_iff`).
-/

namespace GodotLint.Check

open Text

/-! ## Every two of a list -/

section pairs

variable {α : Type} {l : List α} {x y : α}

/-- In a list in order, every two are those of which the one comes before the other. -/
theorem mem_pairs_iff {R : α → α → Prop} (hasymm : ∀ x y, R x y → ¬ R y x) (h : l.Pairwise R) :
    (x, y) ∈ pairs l ↔ x ∈ l ∧ y ∈ l ∧ R x y := by
  induction l with
  | nil => simp [pairs]
  | cons a l ih =>
      obtain ⟨hfirst, hrest⟩ := List.pairwise_cons.mp h
      rw [pairs, List.mem_append, ih hrest, List.mem_map]
      constructor
      · rintro (⟨z, hz, heq⟩ | ⟨hx, hy, hxy⟩)
        · obtain ⟨rfl, rfl⟩ := Prod.mk.inj heq
          exact ⟨List.mem_cons_self, List.mem_cons_of_mem _ hz, hfirst z hz⟩
        · exact ⟨List.mem_cons_of_mem _ hx, List.mem_cons_of_mem _ hy, hxy⟩
      · rintro ⟨hx, hy, hxy⟩
        rcases List.mem_cons.mp hy with rfl | hyl
        · -- nothing comes before the first one
          rcases List.mem_cons.mp hx with rfl | hxl
          · exact absurd hxy (hasymm _ _ hxy)
          · exact absurd hxy (hasymm _ _ (hfirst x hxl))
        · rcases List.mem_cons.mp hx with rfl | hxl
          · exact .inl ⟨y, hyl, rfl⟩
          · exact .inr ⟨hxl, hyl, hxy⟩

/-- No two are taken twice. -/
theorem nodup_pairs (h : l.Nodup) : (pairs l).Nodup := by
  induction l with
  | nil => exact List.nodup_nil
  | cons a l ih =>
      obtain ⟨ha, hl⟩ := List.nodup_cons.mp h
      have hmem : ∀ {x y : α} {l : List α}, (x, y) ∈ pairs l → x ∈ l := by
        intro x y l
        induction l with
        | nil => simp [pairs]
        | cons b l ih =>
            rw [pairs, List.mem_append, List.mem_map, List.mem_cons]
            rintro (⟨z, -, heq⟩ | hmem)
            · exact .inl (Prod.mk.inj heq).1.symm
            · exact .inr (ih hmem)
      refine List.Nodup.append (hl.map fun x y heq => (Prod.mk.inj heq).2) (ih hl) ?_
      rintro ⟨x, y⟩ hx hpairs
      obtain ⟨z, -, heq⟩ := List.mem_map.mp hx
      obtain ⟨rfl, -⟩ := Prod.mk.inj heq
      exact ha (hmem hpairs)

/-- How many there are. -/
theorem length_pairs (l : List α) : (pairs l).length = l.length * (l.length - 1) / 2 := by
  have hchoose : (pairs l).length = l.length.choose 2 := by
    induction l with
    | nil => rfl
    | cons a l ih =>
        rw [pairs, List.length_append, List.length_map, ih, List.length_cons, Nat.choose_succ_succ',
          Nat.choose_one_right]
  rw [hchoose, Nat.choose_two_right]

end pairs

/-! ## Which class an issue is about -/

/-- The text of the issue of a class that is declared twice, up to the earlier site. -/
def duplicateClassText (name : String) : String := "class_name '" ++ name ++ "' is also declared in "

/-- An issue reports that a class is declared twice. -/
def IsAboutClass (name : String) (i : Issue) : Prop :=
  i.kind = "duplicate_class_name" ∧ (duplicateClassText name).toList <+: i.message.toList

instance (name : String) (i : Issue) : Decidable (IsAboutClass name i) :=
  inferInstanceAs (Decidable (_ ∧ _))

/-- Two texts up to the same mark are the same where one text starts with both. -/
theorem eq_of_append_cons_prefix {α : Type} [DecidableEq α] {u v u' v' : List α} {c : α} (hu : c ∉ u)
    (hu' : c ∉ u') (h : u ++ c :: v <+: u' ++ c :: v') : u = u' := by
  have htake : ∀ {u v : List α}, c ∉ u → (u ++ c :: v).takeWhile (· != c) = u := by
    intro u v hu
    rw [List.takeWhile_append_of_pos]
    · simp
    · intro x hx
      rw [bne_iff_ne]
      rintro rfl
      exact hu hx
  obtain ⟨t, ht⟩ := h
  rw [List.append_assoc, List.cons_append] at ht
  have hsame := congrArg (List.takeWhile (· != c)) ht
  rwa [htake hu, htake hu'] at hsame

/-- What the issue of two sites says. -/
theorem message_duplicateClassIssue (name : String) (x y : Site) :
    (duplicateClassIssue (name, x, y)).message =
      duplicateClassText name ++ (x.file ++ ":" ++ toString x.line) := by
  simp [duplicateClassIssue, duplicateClassText, String.append_assoc]

/-- The issue of two sites of a class is about this class. -/
theorem isAboutClass_iff {name other : String} (hname : ∀ c ∈ name.toList, isIdentChar c = true)
    (hother : ∀ c ∈ other.toList, isIdentChar c = true) (x y : Site) :
    IsAboutClass name (duplicateClassIssue (other, x, y)) ↔ other = name := by
  have hplain : ∀ {s : String}, (∀ c ∈ s.toList, isIdentChar c = true) → '\x27' ∉ s.toList := by
    intro s hs hmem
    exact absurd (hs _ hmem) (by decide)
  rw [IsAboutClass, message_duplicateClassIssue]
  constructor
  · rintro ⟨-, hprefix⟩
    simp only [duplicateClassText, String.toList_append, List.append_assoc,
      List.prefix_append_right_inj] at hprefix
    have hsame := eq_of_append_cons_prefix (v := " is also declared in ".toList) (hplain hname)
      (hplain hother) hprefix
    exact (String.toList_injective hsame).symm
  · rintro rfl
    exact ⟨rfl, by rw [String.toList_append]; exact List.prefix_append ..⟩

/-! ## The report -/

/-- An issue at a later site of a class names the earlier one. -/
structure IsDuplicateIssue (name : String) (sites : Site × Site) (i : Issue) : Prop where
  file : i.file = sites.2.file
  line : i.line = sites.2.line
  message : i.message = duplicateClassText name ++ (sites.1.file ++ ":" ++ toString sites.1.line)
  severity : i.severity = .error

/-- What the index and the check tell of the class `name` that the scripts declare at `sites`. -/
structure TellsClass (p : Project) (findings : Findings) (name : String) (sites : List Site) :
    Prop where
  mem_iff : ∀ site, site ∈ sites ↔
    ∃ s ∈ p.scripts, s.path = site.file ∧ s.facts.className = some (name, site.line)
  ordered : sites.Pairwise fun x y => x.file < y.file
  duplicates : p.index.duplicateClasses.get? name = if 2 ≤ sites.length then some sites else none
  first : (p.index.classes.get? name).map (fun e => Site.mk e.file e.line) = sites.head?
  /-- The names of classes are made of characters of identifiers. -/
  nameChars : sites ≠ [] → ∀ c ∈ name.toList, isIdentChar c = true
  /-- Every two sites are reported once, at the later one. The text of an issue tells the name only
  where no other name could be quoted in it, as is so with those of classes. -/
  reported : (∀ c ∈ name.toList, isIdentChar c = true) → ∃ reports : List (Site × Site),
    reports.Nodup ∧
    (∀ x y, (x, y) ∈ reports ↔ x ∈ sites ∧ y ∈ sites ∧ x.file < y.file) ∧
    reports.length = sites.length * (sites.length - 1) / 2 ∧
    List.Forall₂ (IsDuplicateIssue name) reports (findings.issues.filter (IsAboutClass name ·))

/-- The pairs of sites of one class. -/
theorem filter_duplicateClassPairs {ix : Index}
    (hkeys : ix.duplicateClasses.keys.Pairwise (· < ·)) (name : String) :
    (duplicateClassPairs ix).filter (·.1 == name) =
      (pairs ((ix.duplicateClasses.get? name).getD [])).map (name, ·) := by
  have hfilter : (duplicateClassPairs ix).filter (·.1 == name) =
      (ix.duplicateClasses.entries.filter (·.1 == name)).flatMap
        fun entry => (pairs entry.2).map fun p => (entry.1, p) := by
    rw [duplicateClassPairs]
    induction ix.duplicateClasses.entries with
    | nil => rfl
    | cons entry entries ih =>
        rw [List.flatMap_cons, List.filter_append, ih, List.filter_cons, List.filter_map]
        by_cases hkey : entry.1 = name <;> simp [Function.comp_def, hkey]
  rw [hfilter, SortedMap.filter_entries hkeys]
  cases ix.duplicateClasses.get? name <;> simp [pairs]

/-- The index lists all sites of a class that is declared more than once. -/
theorem get?_duplicateClasses {p : Project} (hp : p.IsLoaded) (name : String) :
    p.index.duplicateClasses.get? name = if 2 ≤ (Index.sitesOf p.scripts name).length then
      some (Index.sitesOf p.scripts name) else none := by
  rw [Project.index_eq_build hp]
  exact Index.get?_duplicateTable

/-- A class with less than two sites has no pairs of them. -/
theorem pairs_duplicateClasses {p : Project} (hp : p.IsLoaded) (name : String) :
    pairs ((p.index.duplicateClasses.get? name).getD []) = pairs (Index.sitesOf p.scripts name) := by
  rw [get?_duplicateClasses hp]
  split_ifs with htwo
  · rfl
  · refine (List.eq_nil_of_length_eq_zero ?_).symm
    rw [length_pairs]
    have hone : (Index.sitesOf p.scripts name).length = 0 ∨
        (Index.sitesOf p.scripts name).length = 1 := by omega
    rcases hone with hone | hone <;> rw [hone]

/-- The classes that scripts declare are named by characters of identifiers. -/
theorem isIdentChar_of_mem_sitesOf {p : Project} (hp : p.IsLoaded) {name : String} {site : Site}
    (h : site ∈ Index.sitesOf p.scripts name) : ∀ c ∈ name.toList, isIdentChar c = true := by
  obtain ⟨s, hs, -, hclass⟩ := Index.mem_sitesOf_iff.mp h
  rw [Project.facts_of_mem_scripts hp hs] at hclass
  exact Facts.isIdentChar_of_className hclass

/-- So are those that are declared more than once. -/
theorem isIdentChar_of_mem_duplicateClassPairs {p : Project} (hp : p.IsLoaded) {name : String}
    {sites : Site × Site} (h : (name, sites) ∈ duplicateClassPairs p.index) :
    ∀ c ∈ name.toList, isIdentChar c = true := by
  obtain ⟨⟨key, all⟩, hentry, hpair⟩ := List.mem_flatMap.mp h
  obtain ⟨_, -, heq⟩ := List.mem_map.mp hpair
  obtain rfl : key = name := (Prod.mk.inj heq).1
  have hkey : p.index.duplicateClasses.get? key ≠ none := by
    rw [ne_eq, SortedMap.get?_eq_none_iff, not_not]
    exact List.mem_map_of_mem hentry
  rw [get?_duplicateClasses hp] at hkey
  split_ifs at hkey with htwo
  · obtain ⟨site, hsite⟩ := List.exists_mem_of_length_pos (Nat.lt_of_lt_of_le Nat.two_pos htwo)
    exact isIdentChar_of_mem_sitesOf hp hsite
  · exact absurd rfl hkey

/-- The issues about a class are those of its pairs of sites. -/
theorem filter_isAboutClass {p : Project} (hp : p.IsLoaded) {name : String}
    (hname : ∀ c ∈ name.toList, isIdentChar c = true) (named : List Issue)
    (hnamed : ∀ i ∈ named, i.kind ≠ "duplicate_class_name") :
    (named ++ (duplicateClassPairs p.index).map duplicateClassIssue).filter (IsAboutClass name ·) =
      ((duplicateClassPairs p.index).filter (·.1 == name)).map duplicateClassIssue := by
  rw [List.filter_append, List.filter_eq_nil_iff.mpr, List.nil_append, List.filter_map]
  · refine congrArg _ (List.filter_congr fun pair hpair => ?_)
    obtain ⟨other, x, y⟩ := pair
    have hother := isIdentChar_of_mem_duplicateClassPairs hp hpair
    rw [Bool.eq_iff_iff, Function.comp_apply, decide_eq_true_iff, isAboutClass_iff hname hother,
      beq_iff_eq]
  · intro i hi habout
    exact hnamed i hi (of_decide_eq_true habout).1

/-- No issue about the name of a file is one about a class that is declared twice. -/
theorem kind_of_classNameIssue? {strict : Bool} {s : Script} {i : Issue}
    (h : classNameIssue? strict s = some i) : i.kind ≠ "duplicate_class_name" := by
  unfold classNameIssue? at h
  simp only at h
  split at h
  · split_ifs at h
    cases h
    simp
  · split_ifs at h
    cases h
    simp

/-- **Classes of the same name are reported pair by pair**, for every project whose scripts have distinct
paths and every name. -/
theorem classNames_tellsClass {p : Project} (hp : p.IsLoaded)
    (hdistinct : (p.scripts.map (·.path)).Nodup) (options : Options) :
    ∃ findings, classNames.run ⟨p, options⟩ = .finished findings ∧
      ∀ name, TellsClass p findings name (Index.sitesOf p.scripts name) := by
  have hordered : ∀ name, (Index.sitesOf p.scripts name).Pairwise fun x y => x.file < y.file :=
    fun name => Index.pairwise_sitesOf (Project.pairwise_path_lt_scripts hp hdistinct)
  have hkeys : p.index.duplicateClasses.keys.Pairwise (· < ·) := by
    rw [Project.index_eq_build hp]
    exact Index.pairwise_keys_duplicateTable _
  refine ⟨_, rfl, fun name => ⟨fun site => Index.mem_sitesOf_iff, hordered name,
    get?_duplicateClasses hp name, ?_, ?_, ?_⟩⟩
  · rw [Project.index_eq_build hp]
    exact Index.map_get?_classTable
  · intro hne
    obtain ⟨site, hsite⟩ := List.exists_mem_of_ne_nil _ hne
    exact isIdentChar_of_mem_sitesOf hp hsite
  · intro hname
    have hnodup : (Index.sitesOf p.scripts name).Nodup :=
      (hordered name).imp fun hlt heq => hlt.ne (congrArg Site.file heq)
    refine ⟨pairs (Index.sitesOf p.scripts name), nodup_pairs hnodup,
      fun x y => mem_pairs_iff (fun _ _ => lt_asymm) (hordered name), length_pairs _, ?_⟩
    have hissues := filter_isAboutClass hp hname
      (p.scripts.filterMap (classNameIssue? options.strict)) fun i hi => by
        obtain ⟨s, -, hissue⟩ := List.mem_filterMap.mp hi
        exact kind_of_classNameIssue? hissue
    rw [filter_duplicateClassPairs hkeys, pairs_duplicateClasses hp, List.map_map] at hissues
    change List.Forall₂ _ _ (List.filter _ (p.scripts.filterMap (classNameIssue? options.strict) ++
      (duplicateClassPairs p.index).map duplicateClassIssue))
    rw [hissues, List.forall₂_map_right_iff]
    exact List.forall₂_same.mpr fun pair _ =>
      ⟨rfl, rfl, message_duplicateClassIssue name pair.1 pair.2, rfl⟩

/-- A class that three files declare, and one that a file alone does. -/
private def threefold : Project := Project.ofFiles {}
  [("ui/shop.gd", "class_name Shop\n"),
    ("core/shop.gd", "\nclass_name Shop\n"),
    ("core/item.gd", "class_name Item\n"),
    ("old/shop.gd", "class_name Shop\n")]

theorem classNames_tellsClass_threefold : threefold.IsLoaded ∧
    (threefold.scripts.map (·.path)).Nodup ∧
    ∃ findings, classNames.run ⟨threefold, {}⟩ = .finished findings ∧
      (Index.sitesOf threefold.scripts "Shop").map (fun site => (site.file, site.line)) =
        [("core/shop.gd", 2), ("old/shop.gd", 1), ("ui/shop.gd", 1)] ∧
      (findings.issues.filter (IsAboutClass "Shop" ·)).length = 3 ∧
      threefold.index.duplicateClasses.get? "Item" = none := by
  have hdistinct : (threefold.scripts.map (·.path)).Nodup := by decide +kernel
  have hsites : (Index.sitesOf threefold.scripts "Shop").map (fun site => (site.file, site.line)) =
      [("core/shop.gd", 2), ("old/shop.gd", 1), ("ui/shop.gd", 1)] := by decide +kernel
  have hthree : (Index.sitesOf threefold.scripts "Shop").length = 3 := by
    rw [← List.length_map, hsites]
    rfl
  obtain ⟨findings, hrun, htells⟩ :=
    classNames_tellsClass (p := threefold) (.ofFiles ..) hdistinct {}
  refine ⟨.ofFiles .., hdistinct, findings, hrun, hsites, ?_, ?_⟩
  · have hne : Index.sitesOf threefold.scripts "Shop" ≠ [] := by
      rw [← List.length_pos_iff_ne_nil, hthree]
      decide
    obtain ⟨reports, -, -, hlength, hreports⟩ :=
      (htells "Shop").reported ((htells "Shop").nameChars hne)
    rw [← hreports.length_eq, hlength, hthree]
  · rw [(htells "Item").duplicates]
    decide +kernel

end GodotLint.Check
