import GodotLint.Project.DataFile
import GodotLint.Proofs.Json.Reading
import GodotLint.Proofs.Line.Words

/-!
# Ids and names of a data file

A document declares ids in one of three ways: as the keys of its entries, as the `id` of the elements of
arrays, or as its own keys (`Declares`). Each way is taken only if the document does not have what the ways
before it need. The ids that are found are those that are declared (`mem_declaredIds`).
-/

namespace GodotLint.DataFile

open Text Json

variable {id name : String} {p : List Step} {lines : List (List Char)} {names : DataNames}
  {document : Json} {items : List Json} {members entries : List (String × Json)}

/-! ## What declares an id -/

/-- A document has its entries as the members of an object. -/
def HasEntries (document : Json) : Prop :=
  ∃ entries, document.at? [.member "entries"] = some (.obj entries)

/-- A document has an array whose elements carry ids. -/
def HasArray (names : DataNames) (document : Json) : Prop :=
  ∃ name ∈ idArrays ++ names.idArrays, ∃ items, document.at? [.member name] = some (.arr items)

/-- A document declares an id. -/
inductive Declares (names : DataNames) (document : Json) (id : String) : Prop
  /-- As the key of an entry. -/
  | entry {v : Json} (h : document.at? [.member "entries", .member id] = some v)
  /-- In an array of known name, if there are no entries. -/
  | element {name : String} {i : Nat} (hentries : ¬ HasEntries document)
      (hname : name ∈ idArrays ++ names.idArrays)
      (h : document.at? [.member name, .item i, .member "id"] = some (.str id))
  /-- As a key of its own, if there are neither entries nor such arrays. -/
  | key {v : Json} (hentries : ¬ HasEntries document) (harray : ¬ HasArray names document)
      (hkey : id ∉ reservedKeys) (h : document.at? [.member id] = some v)
  /-- In an item, if it is an array. -/
  | item {i : Nat} (h : document.at? [.item i, .member "id"] = some (.str id))

/-! ## Where ids are found -/

theorem hasEntries_of_at? {v : Json} (h : document.at? [.member "entries", .member id] = some v) :
    HasEntries document := by
  rw [at?_cons, Option.bind_eq_some_iff] at h
  obtain ⟨w, hw, hv⟩ := h
  obtain ⟨entries, rfl⟩ := exists_obj_of_at? hv
  exact ⟨entries, hw⟩

theorem exists_array_of_at? {i : Nat} {v : Json}
    (h : document.at? (.member name :: .item i :: p) = some v) :
    ∃ items, document.at? [.member name] = some (.arr items) ∧
      (Json.arr items).at? (.item i :: p) = some v := by
  rw [at?_cons, Option.bind_eq_some_iff] at h
  obtain ⟨w, hw, hv⟩ := h
  obtain ⟨items, rfl⟩ := exists_arr_of_at? hv
  exact ⟨items, hw, hv⟩

theorem mem_elementIds : id ∈ (elementIds lines items).map (·.1) ↔
    ∃ i, (Json.arr items).at? [.item i, .member "id"] = some (.str id) := by
  have hitem : ∀ i, (Json.arr items).at? [.item i, .member "id"] = some (.str id) ↔
      ∃ item, items[i]? = some item ∧ item.member? "id" = some (.str id) := fun i => by
    rw [at?_cons, at?_arr_item, Option.bind_eq_some_iff]
    simp only [at?_member_eq_member?]
  simp only [hitem, elementIds, List.map_filterMap, List.mem_filterMap]
  constructor
  · rintro ⟨item, hmem, h⟩
    obtain ⟨i, hi⟩ := List.mem_iff_getElem?.mp hmem
    simp only [Option.map_map, Option.map_eq_some_iff, Option.bind_eq_some_iff] at h
    obtain ⟨_, ⟨v, hv, hs⟩, rfl⟩ := h
    rw [str?_eq_some_iff] at hs
    exact ⟨i, item, hi, hs ▸ hv⟩
  · rintro ⟨i, item, hi, hid⟩
    exact ⟨item, List.mem_of_getElem? hi, by simp [hid, Json.str?]⟩

/-- The arrays of an object whose elements carry ids. -/
def arraysOf (names : DataNames) (members : List (String × Json)) : List (List Json) :=
  (idArrays ++ names.idArrays).filterMap fun name =>
    match members.lookup name with
    | some (.arr items) => some items
    | _ => none

theorem mem_arraysOf : items ∈ arraysOf names members ↔
    ∃ name ∈ idArrays ++ names.idArrays,
      (Json.obj members).at? [.member name] = some (.arr items) := by
  rw [arraysOf, List.mem_filterMap]
  refine exists_congr fun name => and_congr_right fun _ => ?_
  rw [at?_obj_member]
  split <;> simp_all

theorem isEmpty_arraysOf :
    (arraysOf names members).isEmpty = true ↔ ¬ HasArray names (.obj members) := by
  rw [List.isEmpty_iff, List.eq_nil_iff_forall_not_mem, HasArray]
  constructor
  · rintro h ⟨name, hname, items, hat⟩
    exact h items (mem_arraysOf.mpr ⟨name, hname, hat⟩)
  · intro h items hitems
    obtain ⟨name, hname, hat⟩ := mem_arraysOf.mp hitems
    exact h ⟨name, hname, items, hat⟩

theorem mem_freeKeys :
    id ∈ (members.filterMap fun (key, _) =>
      if reservedKeys.contains key then none else some (key, lineOfKey lines key)).map (·.1) ↔
      id ∉ reservedKeys ∧ id ∈ members.map (·.1) := by
  simp only [List.mem_map, List.mem_filterMap, Option.ite_none_left_eq_some, List.contains_iff_mem]
  constructor
  · rintro ⟨_, ⟨entry, hentry, hkey, ⟨⟩⟩, rfl⟩
    exact ⟨hkey, entry, hentry, rfl⟩
  · rintro ⟨hkey, entry, hentry, rfl⟩
    exact ⟨_, ⟨entry, hentry, hkey, rfl⟩, rfl⟩

/-! ## The ways to declare ids -/

/-- An object with entries declares their keys. -/
theorem declares_iff_of_entries (h : document.at? [.member "entries"] = some (.obj entries)) :
    Declares names document id ↔ id ∈ entries.map (·.1) := by
  have hplace : document.at? [.member "entries", .member id] = (Json.obj entries).at? [.member id] := by
    rw [at?_cons, h, Option.bind_some]
  rw [← exists_at?_member, ← hplace]
  constructor
  · rintro (⟨hentry⟩ | ⟨hentries⟩ | ⟨hentries⟩ | ⟨hitem⟩)
    · exact ⟨_, hentry⟩
    · exact absurd ⟨entries, h⟩ hentries
    · exact absurd ⟨entries, h⟩ hentries
    · obtain ⟨members, rfl⟩ := exists_obj_of_at? h
      cases hitem
  · rintro ⟨v, hentry⟩
    exact .entry hentry

/-- An object with arrays that carry ids, but without entries, declares these ids. -/
theorem declares_iff_of_arrays (hentries : ¬ HasEntries (.obj members))
    (harray : HasArray names (.obj members)) : Declares names (.obj members) id ↔
      id ∈ ((arraysOf names members).flatMap (elementIds lines)).map (·.1) := by
  rw [List.map_flatMap, List.mem_flatMap]
  constructor
  · rintro (⟨hentry⟩ | ⟨-, hname, helement⟩ | ⟨-, hno⟩ | ⟨hitem⟩)
    · exact absurd (hasEntries_of_at? hentry) hentries
    · obtain ⟨items, hitems, hid⟩ := exists_array_of_at? helement
      exact ⟨items, mem_arraysOf.mpr ⟨_, hname, hitems⟩, mem_elementIds.mpr ⟨_, hid⟩⟩
    · exact absurd harray hno
    · cases hitem
  · rintro ⟨items, hitems, hid⟩
    obtain ⟨name, hname, hat⟩ := mem_arraysOf.mp hitems
    obtain ⟨i, hi⟩ := mem_elementIds.mp hid
    refine .element hentries hname (i := i) ?_
    rw [at?_cons, hat, Option.bind_some, hi]

/-- An object with neither declares its keys, apart from the reserved ones. -/
theorem declares_iff_of_keys (hentries : ¬ HasEntries (.obj members))
    (harray : ¬ HasArray names (.obj members)) : Declares names (.obj members) id ↔
      id ∉ reservedKeys ∧ id ∈ members.map (·.1) := by
  rw [← exists_at?_member]
  constructor
  · rintro (⟨hentry⟩ | ⟨-, hname, helement⟩ | ⟨-, -, hkey, hid⟩ | ⟨hitem⟩)
    · exact absurd (hasEntries_of_at? hentry) hentries
    · obtain ⟨items, hitems, -⟩ := exists_array_of_at? helement
      exact absurd ⟨_, hname, items, hitems⟩ harray
    · exact ⟨hkey, _, hid⟩
    · cases hitem
  · rintro ⟨hkey, v, hid⟩
    exact .key hentries harray hkey hid

/-- An array declares the ids of its elements. -/
theorem declares_arr_iff :
    Declares names (.arr items) id ↔ id ∈ (elementIds lines items).map (·.1) := by
  rw [mem_elementIds]
  constructor
  · rintro (⟨hentry⟩ | ⟨-, -, helement⟩ | ⟨-, -, -, hid⟩ | ⟨hitem⟩)
    · cases hentry
    · cases helement
    · cases hid
    · exact ⟨_, hitem⟩
  · rintro ⟨i, hitem⟩
    exact .item hitem

theorem declaredIds_of_entries (h : members.lookup "entries" = some (.obj entries)) :
    declaredIds lines names (.obj members) =
      (.entries, entries.map fun (key, _) => (key, lineOfKey lines key)) := by
  simp [declaredIds, h]

theorem declaredIds_of_not_hasEntries (h : ¬ HasEntries (.obj members)) :
    declaredIds lines names (.obj members) =
      if (arraysOf names members).isEmpty then
        (.topLevelKeys, members.filterMap fun (key, _) =>
          if reservedKeys.contains key then none else some (key, lineOfKey lines key))
      else (.arrays, (arraysOf names members).flatMap (elementIds lines)) := by
  rw [declaredIds]
  split
  next entries hentries => exact absurd ⟨entries, (at?_obj_member _ _).trans hentries⟩ h
  next => rfl

/-- **The ids that are found are those that a document declares.** -/
theorem mem_declaredIds (lines : List (List Char)) :
    id ∈ (declaredIds lines names document).2.map (·.1) ↔ Declares names document id := by
  cases document with
  | obj members =>
    by_cases hentries : HasEntries (.obj members)
    · obtain ⟨entries, hat⟩ := hentries
      have hfound : members.lookup "entries" = some (.obj entries) := at?_obj_member _ _ ▸ hat
      rw [declares_iff_of_entries hat, declaredIds_of_entries hfound, List.map_map]
      rfl
    rw [declaredIds_of_not_hasEntries hentries]
    split_ifs with hempty
    · rw [declares_iff_of_keys hentries (isEmpty_arraysOf.mp hempty)]
      exact mem_freeKeys
    · rw [isEmpty_arraysOf, not_not] at hempty
      exact (declares_iff_of_arrays hentries hempty).symm
  | arr items => exact declares_arr_iff.symm
  | _ =>
    refine iff_of_false List.not_mem_nil ?_
    rintro (⟨⟨⟩⟩ | ⟨-, -, ⟨⟩⟩ | ⟨-, -, -, ⟨⟩⟩ | ⟨⟨⟩⟩)

end GodotLint.DataFile

/-!
## What a data file names

The strings of a document are read together with the places where they stand (`leaves_eq`). A string names
another entry if the last key on the way to it is a reference field (`foldl_fieldAfter_eq_some_iff`), that
is, if only arrays lie between. A data file has every such string once, and every path of a resource once,
in the order of the places (`parse_isReading`). This is the order of the keys, not that of the text
(`parse_not_in_text_order`).
-/

namespace GodotLint.DataFile

open Text Json

variable {isField : String → Bool} {path field : String} {p : List Step} {lines : List (List Char)}
  {files : List String} {names : DataNames} {document : Json}

/-! ## Leaves -/

/-- The text of a place with one more step. -/
def stepText (path : String) : Step → String
  | .member key => memberPath path key
  | .item i => path ++ "[" ++ toString i ++ "]"

/-- The text of a place. -/
def placeText (p : List Step) : String := p.foldl stepText ""

example : placeText [.member "lessons", .item 2, .member "requires", .item 0] =
    "lessons[2].requires[0]" := by
  decide +kernel

/-- The reference field that a part belongs to after one more step: a member has its own, an item that of
its array. -/
def fieldAfter (isField : String → Bool) (field : Option String) : Step → Option String
  | .member key => if isField key then some key else none
  | .item _ => field

/-- A string with the text of its place and its reference field. -/
def leafAt (isField : String → Bool) (path : String) (field : Option String)
    (x : List Step × String) : Leaf :=
  ⟨x.1.foldl stepText path, x.1.foldl (fieldAfter isField) field, x.2⟩

theorem itemLeaves_eq {items : List Json} {field : Option String} {i : Nat}
    (h : ∀ v ∈ items, ∀ path field, leaves isField path field v =
      v.strings.map (leafAt isField path field)) :
    itemLeaves isField path field i items =
      (itemStrings i items).map (leafAt isField path field) := by
  induction items generalizing i with
  | nil => rfl
  | cons v rest ih =>
      obtain ⟨hv, hrest⟩ := List.forall_mem_cons.mp h
      rw [itemLeaves, itemStrings, List.map_append, List.map_map, ih hrest, hv]
      rfl

theorem memberLeaves_eq {members : List (String × Json)} {field : Option String}
    (h : ∀ entry ∈ members, ∀ path field, leaves isField path field entry.2 =
      entry.2.strings.map (leafAt isField path field)) :
    memberLeaves isField path members =
      (memberStrings members).map (leafAt isField path field) := by
  induction members with
  | nil => rfl
  | cons entry rest ih =>
      obtain ⟨hv, hrest⟩ := List.forall_mem_cons.mp h
      rw [memberLeaves, memberStrings, List.map_append, List.map_map, ih hrest, hv]
      rfl

/-- The leaves of a value are its strings, with what their places tell. -/
theorem leaves_eq (isField : String → Bool) (v : Json) (path : String) (field : Option String) :
    leaves isField path field v = v.strings.map (leafAt isField path field) := by
  induction v using Json.induct generalizing path field with
  | null => rfl
  | bool b => rfl
  | num n => rfl
  | str s => rfl
  | arr items ih => exact itemLeaves_eq ih
  | obj members ih => exact memberLeaves_eq ih

/-- A part belongs to a reference field if it is reached from the member of this key through arrays. -/
theorem foldl_fieldAfter_eq_some_iff : p.foldl (fieldAfter isField) none = some field ↔
    isField field = true ∧ ∃ (outer : List Step) (positions : List Nat),
      p = outer ++ .member field :: positions.map .item := by
  induction p using List.reverseRecOn with
  | nil => simp
  | append_singleton p step ih =>
      rw [List.foldl_append, List.foldl_cons, List.foldl_nil]
      cases step with
      | member key =>
          constructor
          · intro h
            rw [fieldAfter] at h
            split_ifs at h with hkey
            cases h
            exact ⟨hkey, p, [], rfl⟩
          · rintro ⟨hfield, outer, positions, heq⟩
            cases positions using List.reverseRecOn with
            | nil =>
                obtain ⟨-, hlast⟩ := List.append_inj' heq rfl
                cases hlast
                exact if_pos hfield
            | append_singleton positions i =>
                rw [List.map_append, List.map_singleton, ← List.cons_append, ← List.append_assoc] at heq
                obtain ⟨-, hlast⟩ := List.append_inj' heq rfl
                cases hlast
      | item i =>
          change p.foldl (fieldAfter isField) none = some field ↔ _
          rw [ih]
          refine and_congr_right fun _ => ⟨?_, ?_⟩
          · rintro ⟨outer, positions, rfl⟩
            exact ⟨outer, positions ++ [i], by simp⟩
          · rintro ⟨outer, positions, heq⟩
            cases positions using List.reverseRecOn with
            | nil =>
                obtain ⟨-, hlast⟩ := List.append_inj' heq rfl
                cases hlast
            | append_singleton positions j =>
                rw [List.map_append, List.map_singleton, ← List.cons_append, ← List.append_assoc] at heq
                obtain ⟨hinit, -⟩ := List.append_inj' heq rfl
                exact ⟨outer, positions, hinit⟩

/-! ## References and resources -/

/-- A record is of a string that names another entry: one that is not empty and no path of a resource, and
that is reached from the member of a reference field through arrays. -/
structure IsReferenceAt (lines : List (List Char)) (names : DataNames) (document : Json)
    (p : List Step) (r : DataReference) : Prop where
  value : document.at? p = some (.str r.target)
  field : r.field ∈ referenceFields ++ names.referenceFields
  reached : ∃ (outer : List Step) (positions : List Nat),
    p = outer ++ .member r.field :: positions.map .item
  nonempty : r.target ≠ ""
  no_resource : ¬ "res://".toList <+: r.target.toList
  path : r.path = placeText p
  line : r.line = lineOfValue lines r.target

/-- A record is of a string that is the path of a resource. -/
structure IsResourceAt (lines : List (List Char)) (files : List String) (document : Json)
    (p : List Step) (r : DataResource) : Prop where
  value : document.at? p = some (.str r.target)
  resource : ∃ rest : String, r.target.toList = "res://".toList ++ rest.toList ∧
    r.present = files.contains rest
  path : r.path = placeText p
  line : r.line = lineOfValue lines r.target

theorem resourcePath?_eq_some_iff {value rest : String} :
    resourcePath? value = some rest ↔ value.toList = "res://".toList ++ rest.toList := by
  rw [resourcePath?, Option.map_eq_some_iff]
  constructor
  · rintro ⟨tail, htail, rfl⟩
    have htext : (str tail).toList = tail := String.toList_ofList
    rw [htext]
    exact afterPrefix?_eq_some.mp htail
  · intro h
    exact ⟨rest.toList, afterPrefix?_eq_some.mpr h, String.ofList_toList⟩

theorem resourcePath?_eq_none_iff {value : String} :
    resourcePath? value = none ↔ ¬ "res://".toList <+: value.toList := by
  rw [Option.eq_none_iff_forall_ne_some]
  constructor
  · rintro h ⟨tail, htail⟩
    have htext : (str tail).toList = tail := String.toList_ofList
    exact h (str tail) (resourcePath?_eq_some_iff.mpr (by rw [htext, htail]))
  · intro h rest hrest
    exact h ⟨rest.toList, (resourcePath?_eq_some_iff.mp hrest).symm⟩

theorem reference?_eq_some_iff {r : DataReference} {leaf : Leaf} :
    leaf.reference? lines = some r ↔ ¬ "res://".toList <+: leaf.value.toList ∧ leaf.value ≠ "" ∧
      leaf.field = some r.field ∧ r.target = leaf.value ∧ r.path = leaf.path ∧
      r.line = lineOfValue lines leaf.value := by
  obtain ⟨line, field, path, target⟩ := r
  rw [← resourcePath?_eq_none_iff, Leaf.reference?]
  cases resourcePath? leaf.value with
  | some rest => simp
  | none =>
      cases leaf.field with
      | none => simp
      | some key =>
          simp only [String.isEmpty_iff]
          split_ifs with hempty
          · simp [hempty]
          · simp only [Option.some.injEq, DataReference.mk.injEq]
            tauto

theorem resource?_eq_some_iff {r : DataResource} {leaf : Leaf} :
    leaf.resource? lines files = some r ↔
      (∃ rest : String, leaf.value.toList = "res://".toList ++ rest.toList ∧
        r.present = files.contains rest) ∧
      r.target = leaf.value ∧ r.path = leaf.path ∧ r.line = lineOfValue lines leaf.value := by
  obtain ⟨line, target, path, present⟩ := r
  rw [Leaf.resource?, Option.map_eq_some_iff]
  simp only [resourcePath?_eq_some_iff, DataResource.mk.injEq]
  constructor
  · rintro ⟨rest, hrest, rfl, rfl, rfl, rfl⟩
    exact ⟨⟨rest, hrest, rfl⟩, rfl, rfl, rfl⟩
  · rintro ⟨⟨rest, hrest, rfl⟩, rfl, rfl, rfl⟩
    exact ⟨rest, hrest, rfl, rfl, rfl, rfl⟩

theorem isReferenceAt_iff {r : DataReference} : IsReferenceAt lines names document p r ↔
    ∃ value, document.at? p = some (.str value) ∧
      (leafAt (referenceFields ++ names.referenceFields).contains "" none (p, value)).reference?
        lines = some r := by
  simp only [reference?_eq_some_iff, leafAt, foldl_fieldAfter_eq_some_iff, List.contains_iff_mem]
  constructor
  · intro h
    exact ⟨r.target, h.value, h.no_resource, h.nonempty, ⟨h.field, h.reached⟩, rfl, h.path, h.line⟩
  · rintro ⟨value, hvalue, hresource, hempty, ⟨hfield, hreached⟩, rfl, hpath, hline⟩
    exact ⟨hvalue, hfield, hreached, hempty, hresource, hpath, hline⟩

theorem isResourceAt_iff {r : DataResource} : IsResourceAt lines files document p r ↔
    ∃ value, document.at? p = some (.str value) ∧
      (leafAt isField "" none (p, value)).resource? lines files = some r := by
  simp only [resource?_eq_some_iff, leafAt]
  constructor
  · intro h
    exact ⟨r.target, h.value, h.resource, rfl, h.path, h.line⟩
  · rintro ⟨value, hvalue, hresource, rfl, hpath, hline⟩
    exact ⟨hvalue, hresource, hpath, hline⟩

/-! ## What is read -/

/-- A data file has what a document declares and names. -/
structure IsReadingOf (lines : List (List Char)) (files : List String) (names : DataNames)
    (document : Json) (d : DataFile) : Prop where
  fault : d.fault = none
  ids : ∀ id, id ∈ d.ids.keys ↔ Declares names document id
  references : Enumerates d.references (IsReferenceAt lines names document)
  resources : Enumerates d.resources (IsResourceAt lines files document)

/-- A data file has what a text declares and names if the text is a document, and nothing otherwise. -/
def IsReading (text : List Char) (files : List String) (names : DataNames) (d : DataFile) : Prop :=
  match Json.read text with
  | .ok document => IsReadingOf (Text.lines text) files names document d
  | .error fault => d.fault = some fault ∧ d.ids.keys = [] ∧ d.references = [] ∧ d.resources = []

theorem ofDocument_isReadingOf (file : String) (lines : List (List Char)) (files : List String)
    (names : DataNames) (hdocument : document.IsSorted) :
    IsReadingOf lines files names document (ofDocument file lines files names document) where
  fault := rfl
  ids id := by
    rw [← mem_declaredIds lines]
    exact SortedMap.mem_keys_foldl_alter.trans (or_iff_right List.not_mem_nil)
  references := by
    rw [ofDocument]
    dsimp only
    rw [leaves_eq, List.filterMap_map]
    exact enumerates_filterMap hdocument fun p r => isReferenceAt_iff
  resources := by
    rw [ofDocument]
    dsimp only
    rw [leaves_eq, List.filterMap_map]
    exact enumerates_filterMap hdocument fun p r => isResourceAt_iff

/-- **A data file has every reference and every resource of its document once**, in the order of the
places. -/
theorem parse_isReading (file : String) (text : List Char) (files : List String)
    (names : DataNames) : IsReading text files names (parse file text files names) := by
  rw [IsReading, parse]
  cases hread : Json.read text with
  | ok document => exact ofDocument_isReadingOf file _ files names (isSorted_of_read hread)
  | error fault => exact ⟨rfl, rfl, rfl, rfl⟩

/-- The order is not that of the text, and of a key that occurs again only the last value is read. -/
theorem parse_not_in_text_order :
    ((parse "a.json" "\x7b\"requires\": \"x\",\n\"next\": \"y\"\x7d".toList [] {}).references.map
        fun r => (r.target, r.line)) = [("y", 2), ("x", 1)] ∧
      ((parse "a.json" "\x7b\"next\": \"x\",\n\"next\": \"y\"\x7d".toList [] {}).references.map
        fun r => (r.target, r.line)) = [("y", 2)] := by
  decide +kernel

end GodotLint.DataFile
