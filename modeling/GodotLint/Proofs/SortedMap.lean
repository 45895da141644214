import GodotLint.Proofs.Ordering

/-!
# Sorted maps

A sorted map keeps its entries in strictly rising order of their keys, so no key has two entries.
The one way to change a map, `alter`, keeps this order (`pairwise_keys_alter`), adds no other key
(`mem_keys_alter`), and keeps what holds of all values if the new value has it (`forall_alter`). What
is found after a change is the new value at its key and the old one elsewhere (`get?_alter_self`,
`get?_alter_of_ne`), so a map that is made of entries finds the last one of a key (`get?_ofList`), and a
map of counts tells how often a key was counted (`get?_foldl_count`).
-/

namespace GodotLint.SortedMap

variable {α : Type} {m : SortedMap α} {key k : String} {v : α} {f : Option α → α}

/-! ## Keys and values -/

theorem mem_alterEntries_keys {entries : List (String × α)} :
    k ∈ (alterEntries key f entries).map (·.1) ↔ k = key ∨ k ∈ entries.map (·.1) := by
  induction entries with
  | nil => simp [alterEntries]
  | cons entry rest ih =>
      obtain ⟨k', v⟩ := entry
      unfold alterEntries
      split_ifs with hlt heq
      · simp
      · subst heq
        simp
      · simp only [List.map_cons, List.mem_cons, ih]
        tauto

theorem pairwise_alterEntries {entries : List (String × α)}
    (h : (entries.map (·.1)).Pairwise (· < ·)) :
    ((alterEntries key f entries).map (·.1)).Pairwise (· < ·) := by
  induction entries with
  | nil => simp [alterEntries]
  | cons entry rest ih =>
      obtain ⟨k', v⟩ := entry
      have hrest := List.pairwise_cons.mp h
      unfold alterEntries
      split_ifs with hlt heq
      · -- the new key comes before all others
        refine List.pairwise_cons.mpr ⟨?_, h⟩
        intro k hk
        rcases List.mem_cons.mp hk with rfl | hk
        · exact hlt
        · exact hlt.trans (hrest.1 k hk)
      · exact h
      · refine List.pairwise_cons.mpr ⟨?_, ih hrest.2⟩
        intro k hk
        rcases mem_alterEntries_keys.mp hk with rfl | hk
        · exact lt_of_le_of_ne (not_lt.mp hlt) (Ne.symm heq)
        · exact hrest.1 k hk

theorem forall_alterEntries {P : α → Prop} {entries : List (String × α)} (hnew : P (f none))
    (hold : ∀ v, P v → P (f (some v))) (h : ∀ entry ∈ entries, P entry.2) :
    ∀ entry ∈ alterEntries key f entries, P entry.2 := by
  induction entries with
  | nil => simpa [alterEntries] using hnew
  | cons entry rest ih =>
      obtain ⟨k', v⟩ := entry
      have hv : P v := h _ (List.mem_cons_self ..)
      have hrest : ∀ entry ∈ rest, P entry.2 := fun e he => h e (List.mem_cons_of_mem _ he)
      unfold alterEntries
      split_ifs
      · exact List.forall_mem_cons.mpr ⟨hnew, h⟩
      · exact List.forall_mem_cons.mpr ⟨hold v hv, hrest⟩
      · exact List.forall_mem_cons.mpr ⟨hv, ih hrest⟩

/-- Changing a value adds its key and no other. -/
theorem mem_keys_alter : k ∈ (m.alter key f).keys ↔ k = key ∨ k ∈ m.keys :=
  mem_alterEntries_keys

/-- Changing the values at some keys one after the other adds these keys and no other. -/
theorem mem_keys_foldl_alter {β : Type} {xs : List β} {keyOf : β → String}
    {change : β → Option α → α} :
    k ∈ (xs.foldl (fun m x => m.alter (keyOf x) (change x)) m).keys ↔
      k ∈ m.keys ∨ k ∈ xs.map keyOf := by
  induction xs generalizing m with
  | nil => simp
  | cons x rest ih =>
      rw [List.foldl_cons, ih, mem_keys_alter, List.map_cons, List.mem_cons]
      tauto

/-- Changing a value keeps the keys in rising order. -/
theorem pairwise_keys_alter (h : m.keys.Pairwise (· < ·)) :
    (m.alter key f).keys.Pairwise (· < ·) :=
  pairwise_alterEntries h

/-- Changing values keeps the keys in rising order, however many are changed. -/
theorem pairwise_keys_foldl_alter {β : Type} {xs : List β} {keyOf : β → String} {change : β → Option α → α}
    (h : m.keys.Pairwise (· < ·)) :
    (xs.foldl (fun m x => m.alter (keyOf x) (change x)) m).keys.Pairwise (· < ·) := by
  induction xs generalizing m with
  | nil => exact h
  | cons x xs ih => exact ih (pairwise_keys_alter h)

/-- Changing a value keeps what holds of all values. -/
theorem forall_alter {P : α → Prop} (hnew : P (f none)) (hold : ∀ v, P v → P (f (some v)))
    (h : ∀ entry ∈ m.entries, P entry.2) : ∀ entry ∈ (m.alter key f).entries, P entry.2 :=
  forall_alterEntries hnew hold h

/-- A value that is found is that of an entry. -/
theorem mem_entries_of_get? (h : m.get? key = some v) : (key, v) ∈ m.entries := by
  unfold get? at h
  obtain ⟨l₁, l₂, heq, -⟩ := List.lookup_eq_some_iff.mp h
  rw [heq]
  simp

/-- A key with a value is one of the keys. -/
theorem mem_keys_of_get? (h : m.get? key = some v) : key ∈ m.keys :=
  List.mem_map_of_mem (mem_entries_of_get? h)

/-- A map contains its keys. -/
theorem contains_iff : m.contains key = true ↔ key ∈ m.keys := by
  simp only [contains, keys, List.any_eq_true, List.mem_map, beq_iff_eq]

/-- Adding an element to a list adds it to all elements of the lists. -/
theorem perm_flatten_values_append {m : SortedMap (List α)} (x : α) :
    (m.append key x).values.flatten.Perm (m.values.flatten ++ [x]) := by
  obtain ⟨entries⟩ := m
  unfold append alter values
  induction entries with
  | nil => exact .refl _
  | cons entry rest ih =>
      obtain ⟨k', l⟩ := entry
      simp only at ih ⊢
      unfold alterEntries
      split_ifs with hlt heq
      · exact @List.perm_append_comm _ [x] _
      · simp only [List.map_cons, List.flatten_cons, Option.getD_some, List.append_assoc]
        exact List.perm_append_comm.append_left l
      · simp only [List.map_cons, List.flatten_cons, List.append_assoc]
        exact ih.append_left l

/-! ## What is found -/

/-- Changing a value changes what is found at no other key. -/
theorem get?_alter_of_ne (h : k ≠ key) : (m.alter key f).get? k = m.get? k := by
  obtain ⟨entries⟩ := m
  unfold alter get?
  induction entries with
  | nil => simp [alterEntries, h]
  | cons entry rest ih =>
      obtain ⟨k', v⟩ := entry
      simp only at ih ⊢
      unfold alterEntries
      split_ifs with hlt heq
      · rw [List.lookup_cons, beq_false_of_ne h]
      · subst heq
        rw [List.lookup_cons, List.lookup_cons, beq_false_of_ne h]
      · rw [List.lookup_cons, List.lookup_cons, ih]

/-- Nothing is found at what is no key. -/
theorem get?_eq_none_iff : m.get? k = none ↔ k ∉ m.keys := by
  unfold get? keys
  rw [List.lookup_eq_none_iff, List.mem_map]
  constructor
  · rintro h ⟨entry, hentry, rfl⟩
    simpa using h entry hentry
  · intro h entry hentry
    rw [bne_iff_ne]
    rintro rfl
    exact h ⟨entry, hentry, rfl⟩

/-- The entries of a key are that of the value that is found. -/
theorem filter_entries (h : m.keys.Pairwise (· < ·)) (key : String) :
    m.entries.filter (·.1 == key) = ((m.get? key).map (key, ·)).toList := by
  obtain ⟨entries⟩ := m
  unfold get?
  unfold keys at h
  simp only at h ⊢
  induction entries with
  | nil => rfl
  | cons entry entries ih =>
      obtain ⟨k, v⟩ := entry
      obtain ⟨hfirst, hrest⟩ := List.pairwise_cons.mp h
      by_cases hkey : key = k
      · subst hkey
        have hnone : entries.filter (·.1 == key) = [] := by
          refine List.filter_eq_nil_iff.mpr fun e he heq => ?_
          exact (hfirst e.1 (List.mem_map_of_mem he)).ne (beq_iff_eq.mp heq).symm
        rw [List.lookup_cons_self, List.filter_cons, if_pos (beq_self_eq_true key), hnone]
        rfl
      · rw [List.lookup_cons, beq_false_of_ne hkey, List.filter_cons,
          if_neg (by simpa using Ne.symm hkey)]
        exact ih hrest

/-- The value of each entry is found. -/
theorem get?_of_mem_entries (h : m.keys.Pairwise (· < ·)) {key : String} {v : α}
    (hmem : (key, v) ∈ m.entries) : m.get? key = some v := by
  have hentry : (key, v) ∈ m.entries.filter (·.1 == key) :=
    List.mem_filter.mpr ⟨hmem, beq_self_eq_true key⟩
  rw [filter_entries h] at hentry
  obtain ⟨w, hfound, heq⟩ := Option.map_eq_some_iff.mp (Option.mem_toList.mp hentry)
  rw [hfound, (Prod.mk.inj heq).2]

/-- Two maps in order are equal if they find the same at every key. -/
theorem eq_of_get?_eq {m' : SortedMap α} (h : m.keys.Pairwise (· < ·))
    (h' : m'.keys.Pairwise (· < ·)) (hget : ∀ k, m.get? k = m'.get? k) : m = m' := by
  have hmem : ∀ {m : SortedMap α}, m.keys.Pairwise (· < ·) → ∀ entry : String × α,
      entry ∈ m.entries ↔ m.get? entry.1 = some entry.2 :=
    fun hm _ => ⟨get?_of_mem_entries hm, mem_entries_of_get?⟩
  have hentries : m.entries = m'.entries := by
    refine eq_of_pairwise_of_mem_iff (R := fun a b => a.1 < b.1) (fun _ _ => lt_asymm)
      (List.pairwise_map.mp h) (List.pairwise_map.mp h') fun entry => ?_
    rw [hmem h, hmem h', hget]
  obtain ⟨entries⟩ := m
  exact congrArg SortedMap.mk hentries

/-- At its key, a change finds the value that is computed from the old one. -/
theorem get?_alter_self (h : m.keys.Pairwise (· < ·)) :
    (m.alter key f).get? key = some (f (m.get? key)) := by
  obtain ⟨entries⟩ := m
  unfold alter get?
  unfold keys at h
  simp only at h ⊢
  induction entries with
  | nil => simp [alterEntries]
  | cons entry rest ih =>
      obtain ⟨k', v⟩ := entry
      have hrest := List.pairwise_cons.mp h
      unfold alterEntries
      split_ifs with hlt heq
      · -- a key before the first one is none of the keys
        have hnone : ((k', v) :: rest).lookup key = none := by
          refine get?_eq_none_iff (m := ⟨(k', v) :: rest⟩).mpr ?_
          intro hmem
          rcases List.mem_cons.mp hmem with rfl | hmem
          · exact lt_irrefl _ hlt
          · exact lt_asymm hlt (hrest.1 key hmem)
        rw [hnone, List.lookup_cons_self]
      · subst heq
        rw [List.lookup_cons_self, List.lookup_cons_self]
      · rw [List.lookup_cons, List.lookup_cons, beq_false_of_ne heq, ih hrest.2]

/-- A map made of entries has its keys in rising order. -/
theorem pairwise_keys_ofList (xs : List (String × α)) :
    (ofList xs).keys.Pairwise (· < ·) := by
  induction xs using List.reverseRecOn with
  | nil => exact List.Pairwise.nil
  | append_singleton xs entry ih =>
      rw [ofList, List.foldl_append]
      exact pairwise_keys_alter ih

/-- A map made of entries finds the last one of a key. -/
theorem get?_ofList (xs : List (String × α)) (k : String) :
    (ofList xs).get? k = xs.reverse.lookup k := by
  induction xs using List.reverseRecOn with
  | nil => rfl
  | append_singleton xs entry ih =>
      obtain ⟨key, v⟩ := entry
      have hlast : ofList (xs ++ [(key, v)]) = (ofList xs).insert key v := by
        rw [ofList, List.foldl_append]
        rfl
      rw [hlast, insert, List.reverse_append, List.reverse_singleton, List.singleton_append]
      by_cases h : k = key
      · subst h
        rw [get?_alter_self (pairwise_keys_ofList xs), List.lookup_cons_self]
      · rw [get?_alter_of_ne h, ih, List.lookup_cons, beq_false_of_ne h]

/-- Where no key has two entries, each entry is found. -/
theorem get?_ofList_of_mem {xs : List (String × α)} (h : (xs.map (·.1)).Nodup)
    (hmem : (k, v) ∈ xs) : (ofList xs).get? k = some v := by
  rw [get?_ofList, List.lookup_eq_some_iff]
  obtain ⟨u, w, rfl⟩ := List.append_of_mem hmem
  refine ⟨w.reverse, u.reverse, by simp, ?_⟩
  intro entry hentry
  rw [List.map_append, List.map_cons] at h
  rw [bne_iff_ne]
  rintro rfl
  have hnot := (List.nodup_cons.mp (List.nodup_append.mp h).2.1).1
  exact hnot (List.mem_map.mpr ⟨entry, List.mem_reverse.mp hentry, rfl⟩)

/-- A map with a value for each of some keys has that value for each of them. -/
theorem get?_ofList_map (f : String → α) {keys : List String} {key : String}
    (h : key ∈ keys) : (ofList (keys.map fun k => (k, f k))).get? key = some (f key) := by
  rw [SortedMap.get?_ofList, ← List.map_reverse]
  have hmem : key ∈ keys.reverse := List.mem_reverse.mpr h
  generalize keys.reverse = ks at hmem
  induction ks with
  | nil => cases hmem
  | cons k ks ih =>
      rw [List.map_cons, List.lookup_cons]
      by_cases hkey : key = k
      · subst hkey
        rw [beq_self_eq_true]
      · rw [beq_false_of_ne hkey]
        exact ih ((List.mem_cons.mp hmem).resolve_left hkey)

theorem keys_map (f : String → α) (names : List String) :
    (SortedMap.mk (names.map fun name => (name, f name))).keys = names := by
  rw [keys, List.map_map]
  exact List.map_id _

/-- A map with a value for each of some names has that value for each of them, and no other. -/
theorem get?_map (f : String → α) (names : List String) (key : String) :
    (SortedMap.mk (names.map fun name => (name, f name))).get? key =
      if key ∈ names then some (f key) else none := by
  unfold get?
  induction names with
  | nil => rfl
  | cons name names ih =>
      rw [List.map_cons, List.lookup_cons]
      by_cases hkey : key = name
      · subst hkey
        simp
      · rw [beq_false_of_ne hkey]
        simp [hkey, ih]

/-- Counting names one after the other adds up. -/
theorem get?_foldl_count {m : SortedMap Nat} (names : List String) (hm : m.keys.Pairwise (· < ·)) :
    (names.foldl (·.count ·) m).get? key =
      if key ∈ names then some ((m.get? key).getD 0 + names.count key) else m.get? key := by
  induction names generalizing m with
  | nil => rfl
  | cons x rest ih =>
      have hrest : (m.count x).keys.Pairwise (· < ·) := pairwise_keys_alter hm
      rw [List.foldl_cons, ih hrest]
      by_cases hx : key = x
      · subst hx
        have hone : (m.count key).get? key = some ((m.get? key).getD 0 + 1) := get?_alter_self hm
        rw [hone, if_pos List.mem_cons_self, List.count_cons_self]
        split_ifs with hmem
        · rw [Option.getD_some, Nat.add_right_comm, Nat.add_assoc]
        · rw [List.count_eq_zero_of_not_mem hmem, Nat.zero_add]
      · have hsame : (m.count x).get? key = m.get? key := get?_alter_of_ne hx
        rw [hsame, List.count_cons_of_ne (Ne.symm hx)]
        simp only [List.mem_cons, hx, false_or]

/-- Counting a name that is a key changes no keys. -/
theorem keys_count {m : SortedMap Nat} (h : m.keys.Pairwise (· < ·)) (hkey : key ∈ m.keys) :
    (m.count key).keys = m.keys := by
  refine eq_of_pairwise_of_mem_iff (fun _ _ => lt_asymm) (pairwise_keys_alter h) h fun k => ?_
  rw [count, mem_keys_alter, or_iff_right_iff_imp]
  rintro rfl
  exact hkey

/-! ## What is picked from entries -/

/-- What is picked from some entries, beside the keys of those that it is picked from. -/
theorem forall₂_filterMap {ι ν β : Type} {entries : List (ι × ν)} {pick : ι × ν → Option β}
    {property : ι → β → Prop} (h : ∀ x ∈ entries, ∀ y, pick x = some y → property x.1 y) :
    List.Forall₂ property ((entries.filter fun x => (pick x).isSome).map (·.1))
      (entries.filterMap pick) := by
  induction entries with
  | nil => exact .nil
  | cons x rest ih =>
      obtain ⟨hx, hrest⟩ := List.forall_mem_cons.mp h
      cases hpick : pick x with
      | none =>
          rw [List.filter_cons_of_neg (by simp [hpick]), List.filterMap_cons_none hpick]
          exact ih hrest
      | some y =>
          rw [List.filter_cons_of_pos (by simp [hpick]), List.filterMap_cons_some hpick]
          exact .cons (hx y hpick) (ih hrest)

end GodotLint.SortedMap
