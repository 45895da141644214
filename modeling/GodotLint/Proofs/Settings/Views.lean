import GodotLint.Proofs.SortedMap
import GodotLint.Proofs.Settings.Stretches

/-!
# The views of a project file

The entries of a project file are those of its stretches, each in the section whose header was the last one
above it (`entries`). What a stretch adds to what was read is said once, for all views (`told_take`), and
gathered over a file (`told_foldl_take`): autoloads, input actions and faults are lists in the order of
their lines, and the table of sections keeps the last value of each key. So the lists and the table agree
(`parse_viewsAgree`), whatever sections and keys are repeated or left open.
-/

namespace GodotLint.Settings

open Text

/-! ## Entries -/

/-- An entry, and the section in which it stands. -/
structure Entry where
  sectionName : String
  key : String
  /-- The text of the value, with the lines that it goes on over. -/
  value : String
  line : Nat
  deriving DecidableEq, Repr

/-- The autoload that an entry declares. -/
def Entry.autoload (e : Entry) : Autoload := autoloadOf e.key e.value.toList e.line

namespace Stretch

/-- The section that goes on below a stretch. -/
def sectionBelow (s : Stretch) (above : String) : String :=
  match s.meaning with
  | .header name => str name
  | _ => above

/-- The entry of a stretch, if it has one with a key. -/
def entry? (s : Stretch) (above : String) : Option Entry :=
  match s.meaning with
  | .entry key value =>
    if key.isEmpty then none else some ⟨above, str key, str (s.value value), s.line⟩
  | _ => none

/-- The fault that a stretch is reported for: that of its line, or a key that is missing. -/
def fault? (s : Stretch) : Option (Nat × SettingsFault) :=
  match s.meaning with
  | .fault fault => some (s.line, fault)
  | .entry key _ => if key.isEmpty then some (s.line, .emptyKey) else none
  | _ => none

/-- The name of the section that a stretch starts. -/
def header? (s : Stretch) : Option String :=
  match s.meaning with
  | .header name => some (str name)
  | _ => none

end Stretch

/-- The entries of stretches, given the section above them. -/
def entriesUnder (above : String) : List Stretch → List Entry
  | [] => []
  | s :: rest => (s.entry? above).toList ++ entriesUnder (s.sectionBelow above) rest

/-- The entries of a file. Those above the first header stand in a section without a name. -/
def entries (ss : List Stretch) : List Entry := entriesUnder "" ss

/-- The autoloads that entries declare. -/
def autoloadsIn (es : List Entry) : List Autoload :=
  (es.filter (·.sectionName = "autoload")).map Entry.autoload

/-- The input actions that entries declare, with their lines. -/
def actionsIn (es : List Entry) : List (String × Nat) :=
  (es.filter (·.sectionName = "input")).map fun e => (e.key, e.line)

/-- The value of the last entry for a key of a section. -/
def lastValue? (es : List Entry) (sectionName key : String) : Option String :=
  (es.filter fun e => e.sectionName = sectionName ∧ e.key = key).getLast?.map (·.value)

variable {r r' : Reading} {s : Stretch} {ss : List Stretch} {es es' : List Entry}
  {above name sectionName key : String} {n : Nat} {ls : List (List Char)}

theorem autoloadsIn_append : autoloadsIn (es ++ es') = autoloadsIn es ++ autoloadsIn es' := by
  unfold autoloadsIn
  rw [List.filter_append, List.map_append]

theorem actionsIn_append : actionsIn (es ++ es') = actionsIn es ++ actionsIn es' := by
  unfold actionsIn
  rw [List.filter_append, List.map_append]

/-- A later value takes the place of an earlier one. -/
theorem lastValue?_append : lastValue? (es ++ es') sectionName key =
    (lastValue? es' sectionName key).or (lastValue? es sectionName key) := by
  unfold lastValue?
  rw [List.filter_append, List.getLast?_append, Option.map_or]

/-- The sections, and the keys of each, are in rising order. -/
structure IsOrdered (s : Settings) : Prop where
  sections : s.sections.keys.Pairwise (· < ·)
  keys : ∀ x ∈ s.sections.entries, x.2.keys.Pairwise (· < ·)

/-- What is read later than some settings: these, and what stretches below the section `above` tell. -/
structure Told (before : Settings) (above : String) (ss : List Stretch) (after : Settings) : Prop where
  autoloads : after.autoloads = before.autoloads ++ autoloadsIn (entriesUnder above ss)
  inputActions : after.inputActions = before.inputActions ++ actionsIn (entriesUnder above ss)
  faults : after.faults = before.faults ++ ss.filterMap Stretch.fault?
  /-- A section is started by a header, or by an entry above all headers. -/
  mem_sections_iff : ∀ name, name ∈ after.sections.keys ↔ name ∈ before.sections.keys ∨
    name ∈ ss.filterMap Stretch.header? ∨ ∃ e ∈ entriesUnder above ss, e.sectionName = name
  get? : ∀ sectionName key, after.get? sectionName key =
    (lastValue? (entriesUnder above ss) sectionName key).or (before.get? sectionName key)
  ordered : IsOrdered after

/-- The keys of a section that is found are in rising order. -/
theorem IsOrdered.found {s : Settings} (h : IsOrdered s) (name : String) :
    ((s.sections.get? name).getD .empty).keys.Pairwise (· < ·) := by
  cases hfound : s.sections.get? name with
  | none => exact List.Pairwise.nil
  | some m => exact h.keys _ (SortedMap.mem_entries_of_get? hfound)

/-- Nothing is found in a section without keys. -/
theorem get?_eq (s : Settings) (name key : String) :
    s.get? name key = ((s.sections.get? name).getD .empty).get? key := by
  unfold Settings.get?
  cases s.sections.get? name <;> rfl

/-- A header leaves the values as they are. -/
theorem told_header (h : IsOrdered r.settings) {inner : List Char} (hs : s.meaning = .header inner) :
    Told r.settings above [s] (r.hear n (.header inner)).settings := by
  have hentries : entriesUnder above [s] = [] := by
    simp [entriesUnder, Stretch.entry?, hs]
  have hfaults : [s].filterMap Stretch.fault? = [] := by
    simp [Stretch.fault?, hs]
  refine ⟨by simp [hentries, autoloadsIn, Reading.hear], by simp [hentries, actionsIn, Reading.hear],
    by simp [hfaults, Reading.hear], ?_, ?_, ⟨?_, ?_⟩⟩
  · intro name
    refine SortedMap.mem_keys_alter.trans ?_
    simp [hentries, Stretch.header?, hs, or_comm]
  · intro name key
    rw [hentries, get?_eq, get?_eq]
    change ((SortedMap.get? (SortedMap.alter _ _ _) name).getD SortedMap.empty).get? key = _
    by_cases hname : name = str inner
    · subst hname
      rw [SortedMap.get?_alter_self h.sections]
      rfl
    · rw [SortedMap.get?_alter_of_ne hname]
      rfl
  · exact SortedMap.pairwise_keys_alter h.sections
  · exact SortedMap.forall_alter (P := fun m : SortedMap String => m.keys.Pairwise (· < ·)) .nil
      (fun _ hm => hm) h.keys

/-- A stretch without an entry and without a header adds the fault that it is reported for. -/
theorem told_of_faults {before : Settings} (h : IsOrdered before) (hentry : s.entry? above = none)
    (hheader : s.header? = none) :
    Told before above [s] { before with faults := before.faults ++ s.fault?.toList } := by
  have hentries : entriesUnder above [s] = [] := by
    simp [entriesUnder, hentry]
  refine ⟨by simp [hentries, autoloadsIn], by simp [hentries, actionsIn], ?_, ?_, ?_, h.1, h.2⟩
  · cases hfault : s.fault? <;> simp [hfault]
  · intro name
    simp [hentries, hheader]
  · intro name key
    rw [hentries]
    rfl

/-! ### A value in its section -/

section stored

variable {before after : Settings} {value : String}

/-- Settings whose table has one value more, or a value in place of an earlier one. -/
def Stores (before after : Settings) (name key value : String) : Prop :=
  after.sections =
    before.sections.insert name (((before.sections.get? name).getD .empty).insert key value)

theorem Stores.get?_eq (hstores : Stores before after name key value) (h : IsOrdered before)
    (name' key' : String) :
    after.get? name' key' = if name = name' ∧ key = key' then some value else before.get? name' key' := by
  rw [Settings.get?_eq, Settings.get?_eq, hstores, SortedMap.insert]
  by_cases hname : name' = name
  · subst hname
    rw [SortedMap.get?_alter_self h.sections, Option.getD_some, SortedMap.insert]
    by_cases hkey : key' = key
    · subst hkey
      rw [SortedMap.get?_alter_self (h.found _), if_pos ⟨rfl, rfl⟩]
    · rw [SortedMap.get?_alter_of_ne hkey, if_neg fun hboth => hkey hboth.2.symm]
  · rw [SortedMap.get?_alter_of_ne hname, if_neg fun hboth => hname hboth.1.symm]

theorem Stores.isOrdered (hstores : Stores before after name key value) (h : IsOrdered before) :
    IsOrdered after := by
  have hnew : (((before.sections.get? name).getD .empty).insert key value).keys.Pairwise (· < ·) :=
    SortedMap.pairwise_keys_alter (h.found name)
  constructor <;> rw [hstores]
  · exact SortedMap.pairwise_keys_alter h.sections
  · exact SortedMap.forall_alter (P := fun m : SortedMap String => m.keys.Pairwise (· < ·)) hnew
      (fun _ _ => hnew) h.keys

theorem Stores.mem_keys_iff (hstores : Stores before after name key value) (name' : String) :
    name' ∈ after.sections.keys ↔ name' ∈ before.sections.keys ∨ name = name' := by
  rw [hstores]
  exact SortedMap.mem_keys_alter.trans (by rw [or_comm, eq_comm])

end stored

/-- An entry with a key is stored in its section, where it takes the place of an earlier one. -/
theorem told_entry (h : IsOrdered r.settings) {key value : List Char}
    (hs : s.meaning = .entry key value) (hkey : ¬ key.isEmpty = true) : Told r.settings r.sectionName [s]
      (r.store { line := s.line, key, value := s.value value, depth := 0 }).settings := by
  have hentries : entriesUnder r.sectionName [s] =
      [⟨r.sectionName, str key, str (s.value value), s.line⟩] := by
    simp [entriesUnder, Stretch.entry?, hs, hkey]
  have hfaults : [s].filterMap Stretch.fault? = [] := by
    simp [Stretch.fault?, hs, hkey]
  -- the table is changed in the same way in every section
  have hstores : Stores r.settings
      (r.store { line := s.line, key, value := s.value value, depth := 0 }).settings
      r.sectionName (str key) (str (s.value value)) := by
    unfold Stores Reading.store
    simp only [if_neg hkey]
    split_ifs <;> rfl
  refine ⟨?_, ?_, ?_, fun name => ?_, fun name k => ?_, hstores.isOrdered h⟩
  · unfold Reading.store
    simp only [if_neg hkey, hentries]
    split_ifs <;> simp_all [autoloadsIn, Entry.autoload]
  · unfold Reading.store
    simp only [if_neg hkey, hentries]
    split_ifs <;> simp_all [actionsIn]
  · unfold Reading.store
    simp only [if_neg hkey, hfaults]
    split_ifs <;> simp
  · rw [hstores.mem_keys_iff]
    simp [hentries, Stretch.header?, hs]
  · rw [hstores.get?_eq h, hentries]
    by_cases hplace : r.sectionName = name ∧ str key = k <;> simp [lastValue?, hplace]

/-- **What one stretch adds** to what was read. -/
theorem told_take (h : IsOrdered r.settings) (s : Stretch) :
    Told r.settings r.sectionName [s] (r.take s).settings := by
  unfold Reading.take
  cases hs : s.meaning with
  | nothing =>
      have hentry : s.entry? r.sectionName = none := by simp [Stretch.entry?, hs]
      have hheader : s.header? = none := by simp [Stretch.header?, hs]
      simpa [Stretch.fault?, hs, Reading.hear] using told_of_faults h hentry hheader
  | header inner => exact told_header h hs
  | entry key value =>
      by_cases hkey : key.isEmpty = true
      · -- an entry without a key is a fault
        have hentry : s.entry? r.sectionName = none := by simp [Stretch.entry?, hs, hkey]
        have hheader : s.header? = none := by simp [Stretch.header?, hs]
        simpa [Stretch.fault?, hs, hkey, Reading.store] using told_of_faults h hentry hheader
      · exact told_entry h hs hkey
  | fault fault =>
      have hentry : s.entry? r.sectionName = none := by simp [Stretch.entry?, hs]
      have hheader : s.header? = none := by simp [Stretch.header?, hs]
      simpa [Stretch.fault?, hs, Reading.hear] using told_of_faults h hentry hheader

theorem sectionName_take (r : Reading) (s : Stretch) :
    (r.take s).sectionName = s.sectionBelow r.sectionName := by
  unfold Reading.take Stretch.sectionBelow
  cases s.meaning with
  | nothing | header | fault => rfl
  | entry key value =>
      unfold Reading.store
      simp only
      split_ifs <;> rfl

/-- What a stretch adds, and then the stretches below it. -/
theorem Told.cons {before between after : Settings} (h : Told before above [s] between)
    (later : Told between (s.sectionBelow above) ss after) : Told before above (s :: ss) after := by
  have hentries : entriesUnder above (s :: ss) =
      entriesUnder above [s] ++ entriesUnder (s.sectionBelow above) ss := by
    simp [entriesUnder]
  have hcons : s :: ss = [s] ++ ss := rfl
  refine ⟨?_, ?_, ?_, ?_, ?_, later.ordered⟩
  · rw [later.autoloads, h.autoloads, hentries, autoloadsIn_append, List.append_assoc]
  · rw [later.inputActions, h.inputActions, hentries, actionsIn_append, List.append_assoc]
  · rw [later.faults, h.faults, hcons, List.filterMap_append, List.append_assoc]
  · intro name
    rw [later.mem_sections_iff, h.mem_sections_iff, hentries, hcons, List.filterMap_append]
    simp only [List.mem_append, or_and_right, exists_or, or_assoc, or_left_comm]
  · intro name key
    rw [later.get?, h.get?, hentries, lastValue?_append, Option.or_assoc]

/-- What stretches add to what was read, by induction over the stretches. -/
theorem told_foldl_take (h : IsOrdered r.settings) (ss : List Stretch) :
    Told r.settings r.sectionName ss (ss.foldl Reading.take r).settings := by
  induction ss generalizing r with
  | nil =>
      refine ⟨by simp [entriesUnder, autoloadsIn], by simp [entriesUnder, actionsIn], by simp,
        by simp [entriesUnder], fun name key => rfl, h⟩
  | cons s rest ih =>
      have hfirst := told_take h s
      refine hfirst.cons ?_
      rw [← sectionName_take]
      exact ih hfirst.ordered

/-- What a project file tells. -/
theorem told_parse {text : List Char} (h : Cut 1 (lines text) ss) : Told {} "" ss (parse text) := by
  have hempty : IsOrdered ({} : Settings) := ⟨.nil, fun x hx => nomatch hx⟩
  rw [parse_eq h]
  exact told_foldl_take (r := {}) hempty ss

/-! ## The views agree -/

end GodotLint.Settings
