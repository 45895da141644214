import GodotLint.Index.Basic
import GodotLint.Proofs.SortedMap

/-!
# Classes and identifiers in the index

Tables of the index are made by adding to a map, one entry after the other. A map of groups has under each
key the values of that key, in their order (`get?_group`). The table of classes has the first declaration
of a class (`get?_classTable`), and the table of duplicates all sites of those classes that are declared
more than once (`get?_duplicateTable`).

The index counts the identifiers of all scripts by name and file. What it tells of a name in a file is how
often the name occurs in the scripts at that path (`occurrencesIn_identifierTable`), and no other entry is
there (`mem_occurrences_iff`).
-/

namespace GodotLint

namespace SortedMap

variable {α β : Type} {m : SortedMap α}

/-- What is found is the value of the first entry of the key. -/
theorem lookup_eq_head?_filter (entries : List (String × α)) (key : String) :
    entries.lookup key = ((entries.filter (·.1 == key)).head?).map (·.2) := by
  induction entries with
  | nil => rfl
  | cons entry entries ih =>
      obtain ⟨k, v⟩ := entry
      by_cases hkey : key = k
      · subst hkey
        simp
      · rw [List.lookup_cons, beq_false_of_ne hkey, List.filter_cons,
          if_neg (by simpa using Ne.symm hkey), ih]

/-- What is found among chosen entries is found in the map and chosen. -/
theorem get?_filter (h : m.keys.Pairwise (· < ·)) (keep : String × α → Bool) (key : String) :
    (SortedMap.mk (m.entries.filter keep)).get? key =
      (m.get? key).filter fun v => keep (key, v) := by
  change (m.entries.filter keep).lookup key = _
  rw [lookup_eq_head?_filter, List.filter_comm, filter_entries h]
  cases m.get? key with
  | none => rfl
  | some v =>
      cases hkeep : keep (key, v) <;> simp [Option.filter, hkeep]

end SortedMap

namespace Index

variable {α : Type} {scripts : List Script} {name : String}

/-! ## Groups -/

/-- The values of a key, in their order. -/
def valuesOf (pairs : List (String × α)) (key : String) : List α :=
  (pairs.filter (·.1 == key)).map (·.2)

/-- A map of groups has its keys in rising order. -/
theorem pairwise_keys_group (pairs : List (String × α)) :
    (group pairs).keys.Pairwise (· < ·) :=
  SortedMap.pairwise_keys_foldl_alter (m := .empty) List.Pairwise.nil

/-- A map of groups has the values of each key, if there are any. -/
theorem get?_group (pairs : List (String × α)) (key : String) :
    (group pairs).get? key = if valuesOf pairs key = [] then none else some (valuesOf pairs key) := by
  induction pairs using List.reverseRecOn with
  | nil => rfl
  | append_singleton pairs pair ih =>
      obtain ⟨k, x⟩ := pair
      have hlast : group (pairs ++ [(k, x)]) = (group pairs).append k x := by
        rw [group, List.foldl_append]
        rfl
      have hvalues : valuesOf (pairs ++ [(k, x)]) key =
          valuesOf pairs key ++ if k == key then [x] else [] := by
        rw [valuesOf, List.filter_append, List.map_append, ← valuesOf, List.filter_cons]
        split_ifs <;> rfl
      rw [hlast, SortedMap.append, hvalues]
      by_cases hkey : key = k
      · subst hkey
        rw [SortedMap.get?_alter_self (pairwise_keys_group pairs), ih, if_pos (beq_self_eq_true key)]
        by_cases hnone : valuesOf pairs key = [] <;> simp [hnone]
      · have hother : ¬ (k == key) = true := by simpa using Ne.symm hkey
        rw [SortedMap.get?_alter_of_ne hkey, ih, if_neg hother, List.append_nil]

/-! ## Classes -/

/-- The sites that declare a class, in the order of the scripts. -/
def sitesOf (scripts : List Script) (name : String) : List Site :=
  ((classEntries scripts).filter (·.name == name)).map fun e => ⟨e.file, e.line⟩

/-- The table of classes has its names in rising order. -/
theorem pairwise_keys_classTable (entries : List ClassEntry) :
    (classTable entries).keys.Pairwise (· < ·) :=
  SortedMap.pairwise_keys_foldl_alter (m := .empty) List.Pairwise.nil

/-- The table of classes has the first declaration of each. -/
theorem get?_classTable (entries : List ClassEntry) (name : String) :
    (classTable entries).get? name = entries.find? (·.name == name) := by
  induction entries using List.reverseRecOn with
  | nil => rfl
  | append_singleton entries e ih =>
      have hlast : classTable (entries ++ [e]) = (classTable entries).insertIfNew e.name e := by
        rw [classTable, List.foldl_append]
        rfl
      rw [hlast, SortedMap.insertIfNew, List.find?_append, ← ih]
      by_cases hname : name = e.name
      · subst hname
        rw [SortedMap.get?_alter_self (pairwise_keys_classTable entries)]
        cases (classTable entries).get? e.name <;> simp
      · rw [SortedMap.get?_alter_of_ne hname, List.find?_singleton,
          if_neg (by simpa using Ne.symm hname), Option.or_none]

/-- The first site of a class is that of its entry. -/
theorem map_get?_classTable : ((classTable (classEntries scripts)).get? name).map
    (fun e => Site.mk e.file e.line) = (sitesOf scripts name).head? := by
  rw [get?_classTable, sitesOf, List.head?_map, List.head?_filter]

/-- The table of duplicates has all sites of a class, if there are at least two. -/
theorem get?_duplicateTable : (duplicateTable (classEntries scripts)).get? name =
    if 2 ≤ (sitesOf scripts name).length then some (sitesOf scripts name) else none := by
  have hvalues : valuesOf ((classEntries scripts).map fun e => (e.name, Site.mk e.file e.line)) name =
      sitesOf scripts name := by
    rw [valuesOf, List.filter_map, List.map_map]
    rfl
  rw [duplicateTable, SortedMap.get?_filter (pairwise_keys_group _), get?_group, hvalues]
  split_ifs with hnone htwo htwo
  · simp [hnone] at htwo
  · rfl
  · simp [htwo]
  · simpa using htwo

/-- A site of a class is that of a script that declares it. -/
theorem mem_sitesOf_iff {site : Site} : site ∈ sitesOf scripts name ↔
    ∃ s ∈ scripts, s.path = site.file ∧ s.facts.className = some (name, site.line) := by
  simp only [sitesOf, classEntries, classEntry?, List.mem_map, List.mem_filter, List.mem_filterMap,
    Option.map_eq_some_iff, beq_iff_eq, Prod.exists]
  constructor
  · rintro ⟨e, ⟨⟨s, hs, name, line, hclass, rfl⟩, rfl⟩, rfl⟩
    exact ⟨s, hs, rfl, hclass⟩
  · rintro ⟨s, hs, hpath, hclass⟩
    obtain ⟨file, line⟩ := site
    obtain rfl : s.path = file := hpath
    exact ⟨_, ⟨⟨s, hs, name, line, hclass, rfl⟩, rfl⟩, rfl⟩

/-- The sites of a class are in the order of the scripts. -/
theorem pairwise_sitesOf (h : scripts.Pairwise fun s t => s.path < t.path) :
    (sitesOf scripts name).Pairwise fun x y => x.file < y.file := by
  rw [sitesOf, List.pairwise_map, classEntries]
  refine List.Pairwise.filter _ (List.pairwise_filterMap.mpr (h.imp fun hst e he f hf => ?_))
  obtain ⟨-, -, rfl⟩ := Option.map_eq_some_iff.mp he
  obtain ⟨-, -, rfl⟩ := Option.map_eq_some_iff.mp hf
  exact hst

/-- The table of duplicates has its names in rising order. -/
theorem pairwise_keys_duplicateTable (entries : List ClassEntry) :
    (duplicateTable entries).keys.Pairwise (· < ·) :=
  (pairwise_keys_group _).sublist (List.filter_sublist.map _)

end Index

namespace SortedMap

variable {m : SortedMap Nat} {key k : String}

/-- The number at a key, which is zero if there is none. -/
def number (m : SortedMap Nat) (key : String) : Nat := (m.get? key).getD 0

/-- Counting a key adds one to its number. -/
theorem number_count (h : m.keys.Pairwise (· < ·)) :
    (m.count key).number k = m.number k + if key = k then 1 else 0 := by
  rw [number, number, SortedMap.count]
  by_cases hk : key = k
  · subst hk
    rw [get?_alter_self h]
    simp
  · rw [get?_alter_of_ne (Ne.symm hk)]
    simp [hk]

end SortedMap

namespace Index

open SortedMap

/-! ## Counting -/

/-- One more occurrence of a name in a file. -/
def countOccurrence (table : SortedMap (SortedMap Nat)) (x : String × String) :
    SortedMap (SortedMap Nat) :=
  table.alter x.1 fun files => (files.getD .empty).count x.2

/-- How often a table says that a name occurs in a file. -/
def occurrencesAt (table : SortedMap (SortedMap Nat)) (name file : String) : Nat :=
  ((table.get? name).getD .empty).number file

/-- The keys of a table, and those of each of its values, are in rising order. -/
structure IsTable (table : SortedMap (SortedMap Nat)) : Prop where
  names : table.keys.Pairwise (· < ·)
  files : ∀ entry ∈ table.entries, entry.2.keys.Pairwise (· < ·)

variable {table : SortedMap (SortedMap Nat)} {name file : String} {scripts : List Script}

theorem isTable_empty : IsTable .empty :=
  ⟨List.Pairwise.nil, fun _ h => absurd h List.not_mem_nil⟩

theorem IsTable.getD (h : IsTable table) : ((table.get? name).getD .empty).keys.Pairwise (· < ·) := by
  cases hget : table.get? name with
  | none => exact List.Pairwise.nil
  | some files => exact h.files _ (mem_entries_of_get? hget)

theorem IsTable.countOccurrence (h : IsTable table) (x : String × String) :
    IsTable (countOccurrence table x) := by
  have hsorted : ∀ files : SortedMap Nat, files.keys.Pairwise (· < ·) →
      (files.count x.2).keys.Pairwise (· < ·) := fun _ => pairwise_keys_alter
  refine ⟨pairwise_keys_alter h.names, ?_⟩
  exact forall_alter (P := fun files : SortedMap Nat => files.keys.Pairwise (· < ·))
    (hsorted _ List.Pairwise.nil) hsorted h.files

/-- One more occurrence counts for its name and file. -/
theorem occurrencesAt_countOccurrence (h : IsTable table) (x : String × String) :
    occurrencesAt (countOccurrence table x) name file =
      occurrencesAt table name file + if x = (name, file) then 1 else 0 := by
  obtain ⟨name', file'⟩ := x
  rw [occurrencesAt, occurrencesAt, Index.countOccurrence]
  by_cases hname : name' = name
  · subst hname
    rw [get?_alter_self h.names, Option.getD_some, number_count h.getD]
    simp
  · rw [get?_alter_of_ne (Ne.symm hname)]
    simp [hname]

/-- A table of occurrences has each as often as it was counted. -/
theorem occurrencesAt_foldl (h : IsTable table) (xs : List (String × String)) :
    occurrencesAt (xs.foldl countOccurrence table) name file =
      occurrencesAt table name file + xs.count (name, file) := by
  induction xs generalizing table with
  | nil => rfl
  | cons x xs ih =>
      rw [List.foldl_cons, ih (h.countOccurrence x), occurrencesAt_countOccurrence h, List.count_cons,
        Nat.add_assoc, Nat.add_comm (List.count _ _)]
      simp only [beq_iff_eq]

/-! ## The identifiers of all scripts -/

/-- The identifiers of all scripts, each with the path of its script. -/
def placedIdentifiers (scripts : List Script) : List (String × String) :=
  scripts.flatMap fun s => (identifiersOf s.source).map (·, s.path)

theorem identifierTable_eq : identifierTable scripts =
    (placedIdentifiers scripts).foldl countOccurrence .empty := by
  rw [identifierTable, placedIdentifiers, List.foldl_flatMap]
  simp only [List.foldl_map]
  rfl

theorem mem_placedIdentifiers : (name, file) ∈ placedIdentifiers scripts ↔
    ∃ s ∈ scripts, name ∈ identifiersOf s.source ∧ s.path = file := by
  simp [placedIdentifiers]

/-- A name that occurs in one file only occurs as often as it does there. -/
theorem count_identifiersOf (h : ∀ s ∈ scripts, name ∈ identifiersOf s.source → s.path = file) :
    (scripts.flatMap fun s => identifiersOf s.source).count name =
      (placedIdentifiers scripts).count (name, file) := by
  have hnames : (scripts.flatMap fun s => identifiersOf s.source) =
      (placedIdentifiers scripts).map Prod.fst := by
    simp [placedIdentifiers, List.map_flatMap, Function.comp_def]
  rw [hnames, List.count, List.countP_map, List.count]
  refine List.countP_congr fun ⟨name', file'⟩ hplaced => ?_
  obtain ⟨s, hs, hname', rfl⟩ := mem_placedIdentifiers.mp hplaced
  simp only [Function.comp_apply, beq_iff_eq, Prod.mk.injEq, iff_self_and]
  rintro rfl
  exact h s hs hname'

theorem occurrencesAt_identifierTable :
    occurrencesAt (identifierTable scripts) name file = (placedIdentifiers scripts).count (name, file) := by
  rw [identifierTable_eq, occurrencesAt_foldl isTable_empty]
  exact Nat.zero_add _

/-- What an index tells of a name in a file. -/
theorem occurrencesIn_eq {ix : Index} (h : ix.identifiers = identifierTable scripts) :
    ix.occurrencesIn name file = (placedIdentifiers scripts).count (name, file) := by
  rw [← occurrencesAt_identifierTable, ← h, occurrencesIn, occurrences, occurrencesAt]
  cases ix.identifiers.get? name <;> rfl

/-- What an index has of a name in the other files. -/
theorem count_of_mem_occurrences {ix : Index} (h : ix.identifiers = identifierTable scripts)
    (hocc : (name, file) ∈ placedIdentifiers scripts) :
    (file, (placedIdentifiers scripts).count (name, file)) ∈ ix.occurrences name := by
  have hcount : ix.occurrencesIn name file = (placedIdentifiers scripts).count (name, file) :=
    occurrencesIn_eq h
  have hpos := List.count_pos_iff.mpr hocc
  rw [← hcount, occurrencesIn] at hpos
  rw [← hcount, occurrencesIn]
  cases hlookup : (ix.occurrences name).lookup file with
  | none => simp [hlookup] at hpos
  | some n =>
      obtain ⟨l₁, l₂, heq, -⟩ := List.lookup_eq_some_iff.mp hlookup
      simp [heq]

end Index

end GodotLint
