import GodotLint.Check.Dictionaries
import GodotLint.Naming.Words
import GodotLint.Proofs.Index.Classes
import GodotLint.Proofs.Project.Loaded

/-!
# Misspelt keys

An edit inserts, drops or replaces one character, or swaps two neighbours (`OneEdit`). Comparing two names
from the left decides whether one edit is between them (`oneEditApart_iff`): characters that both start
with do not count (`oneEditApart_append`), and where a character was inserted into a run of the same one,
it may as well be the last of the run (`oneEditApart_cons_self`).

The index has the sites at which scripts access each key (`mem_dictKeys_iff`). A key with one site is
reported exactly if some common key is one edit away, with the most used of these, and the first in
alphabetical order among equals (`dictKeys_tellsTypos`).
-/

namespace GodotLint.Naming

/-! ## One edit -/

variable {a b : List Char}

/-- One edit of a text. -/
inductive OneEdit : List Char → List Char → Prop
  | insert (u v : List Char) (c : Char) : OneEdit (u ++ v) (u ++ c :: v)
  | delete (u v : List Char) (c : Char) : OneEdit (u ++ c :: v) (u ++ v)
  | replace (u v : List Char) (c d : Char) : OneEdit (u ++ c :: v) (u ++ d :: v)
  | swap (u v : List Char) (c d : Char) : OneEdit (u ++ c :: d :: v) (u ++ d :: c :: v)

namespace OneEdit

/-- An edit can be undone by one edit. -/
theorem symm (h : OneEdit a b) : OneEdit b a := by
  cases h with
  | insert u v c => exact .delete u v c
  | delete u v c => exact .insert u v c
  | replace u v c d => exact .replace u v d c
  | swap u v c d => exact .swap u v d c

/-- An edit can be made behind another character. -/
theorem cons (x : Char) (h : OneEdit a b) : OneEdit (x :: a) (x :: b) := by
  cases h with
  | insert u v c => exact .insert (x :: u) v c
  | delete u v c => exact .delete (x :: u) v c
  | replace u v c d => exact .replace (x :: u) v c d
  | swap u v c d => exact .swap (x :: u) v c d

end OneEdit

/-- The second of two texts is one edit away from the first: it is another text, and an edit makes it. -/
def IsOneEditAway (a b : List Char) : Prop := a ≠ b ∧ OneEdit a b

/-- Whichever of the two is edited. -/
theorem IsOneEditAway.symm (h : IsOneEditAway a b) : IsOneEditAway b a := ⟨h.1.symm, h.2.symm⟩

/-! ## The comparison from the left -/

/-- The same characters at the start of both texts do not count. -/
theorem oneEditApart_append (u a b : List Char) :
    oneEditApart (u ++ a) (u ++ b) = oneEditApart a b := by
  induction u with
  | nil => rfl
  | cons c u ih =>
      rw [List.cons_append, List.cons_append, oneEditApart, if_pos (beq_self_eq_true c)]
      exact ih

/-- Where the texts differ, one edit has to make them the same. -/
theorem oneEditApart_cons_of_ne {c d : Char} (h : c ≠ d) : oneEditApart (c :: a) (d :: b) =
    (a == b || a == d :: b || c :: a == b || swapsAtStart (c :: a) (d :: b)) := by
  rw [oneEditApart, if_neg (by simpa using h)]

/-- A text and the same one with a character before it are one edit apart, in either order. -/
theorem oneEditApart_cons_self (c : Char) (v : List Char) :
    oneEditApart v (c :: v) = true ∧ oneEditApart (c :: v) v = true := by
  induction v generalizing c with
  | nil => exact ⟨rfl, rfl⟩
  | cons d v ih =>
      by_cases hsame : c = d
      · -- the new character may be the one behind it
        subst hsame
        have hself := beq_self_eq_true c
        rw [oneEditApart, if_pos hself, oneEditApart, if_pos hself]
        exact ih c
      · rw [oneEditApart_cons_of_ne (Ne.symm hsame), oneEditApart_cons_of_ne hsame]
        simp

/-- Two texts swap at the start if they start with the same two characters in another order and go on
alike. -/
theorem exists_of_swapsAtStart (h : swapsAtStart a b = true) :
    ∃ c d v, a = c :: d :: v ∧ b = d :: c :: v := by
  unfold swapsAtStart at h
  split at h
  · simp only [Bool.and_eq_true, beq_iff_eq] at h
    obtain ⟨⟨rfl, rfl⟩, rfl⟩ := h
    exact ⟨_, _, _, rfl, rfl⟩
  · exact absurd h Bool.false_ne_true

/-- Texts that compare as one edit apart are. -/
theorem isOneEditAway_of_oneEditApart (h : oneEditApart a b = true) : IsOneEditAway a b := by
  fun_induction oneEditApart a b with
  | case1 => exact absurd h Bool.false_ne_true
  | case2 d bs =>
      obtain rfl := List.isEmpty_iff.mp h
      exact ⟨(List.cons_ne_nil d []).symm, .insert [] [] d⟩
  | case3 c as =>
      obtain rfl := List.isEmpty_iff.mp h
      exact ⟨List.cons_ne_nil c [], .delete [] [] c⟩
  | case4 c as d bs hsame ih =>
      obtain rfl := beq_iff_eq.mp hsame
      obtain ⟨hne, hedit⟩ := ih h
      exact ⟨fun heq => hne (List.cons.inj heq).2, hedit.cons c⟩
  | case5 c as d bs hdiffer =>
      have hne : c :: as ≠ d :: bs := fun heq => hdiffer (beq_iff_eq.mpr (List.cons.inj heq).1)
      simp only [Bool.or_eq_true, beq_iff_eq] at h
      obtain ((rfl | rfl) | rfl) | hswap := h
      · exact ⟨hne, .replace [] as c d⟩
      · exact ⟨hne, .delete [] (d :: bs) c⟩
      · exact ⟨hne, .insert [] (c :: as) d⟩
      · obtain ⟨x, y, v, heq, heq'⟩ := exists_of_swapsAtStart hswap
        rw [heq, heq'] at hne ⊢
        exact ⟨hne, .swap [] v x y⟩

/-- Texts that are one edit apart compare so, wherever the edit is. -/
theorem oneEditApart_of_isOneEditAway (h : IsOneEditAway a b) : oneEditApart a b = true := by
  obtain ⟨hne, hedit⟩ := h
  cases hedit with
  | insert u v c => rw [oneEditApart_append, (oneEditApart_cons_self c v).1]
  | delete u v c => rw [oneEditApart_append, (oneEditApart_cons_self c v).2]
  | replace u v c d =>
      have hcd : c ≠ d := fun heq => hne (by rw [heq])
      rw [oneEditApart_append, oneEditApart_cons_of_ne hcd]
      simp
  | swap u v c d =>
      have hcd : c ≠ d := fun heq => hne (by rw [heq])
      rw [oneEditApart_append, oneEditApart_cons_of_ne hcd]
      simp [swapsAtStart]

/-- **The comparison is exact.** -/
theorem oneEditApart_iff : oneEditApart a b = true ↔ IsOneEditAway a b :=
  ⟨isOneEditAway_of_oneEditApart, oneEditApart_of_isOneEditAway⟩

/-- The comparison does not depend on which text is the first. -/
theorem oneEditApart_comm (a b : List Char) : oneEditApart a b = oneEditApart b a := by
  rw [Bool.eq_iff_iff, oneEditApart_iff, oneEditApart_iff]
  exact ⟨.symm, .symm⟩

end GodotLint.Naming

namespace GodotLint.Check

/-! ## The most used key -/

section mostUsed

variable {keys : List (String × Nat)} {k : String × Nat}

/-- No key is used more, and those used as often come later in alphabetical order. -/
def IsMostUsed (keys : List (String × Nat)) (k : String × Nat) : Prop :=
  k ∈ keys ∧ ∀ other ∈ keys, other.2 < k.2 ∨ other.2 = k.2 ∧ k.1 ≤ other.1

/-- One more key is taken if it is used more than all before it. -/
theorem mostUsed?_append_singleton (keys : List (String × Nat)) (k : String × Nat) :
    mostUsed? (keys ++ [k]) = some (((mostUsed? keys).filter fun b => k.2 ≤ b.2).getD k) := by
  unfold mostUsed?
  rw [List.foldl_append, List.foldl_cons, List.foldl_nil]
  split
  · rename_i heq
    rw [heq]
    rfl
  · rename_i b heq
    rw [heq]
    by_cases hmore : b.2 < k.2
    · simp [Option.filter, hmore, Nat.not_le.mpr hmore]
    · simp [Option.filter, hmore, Nat.not_lt.mp hmore]

/-- There is a most used key unless there is none. -/
theorem mostUsed?_eq_none_iff : mostUsed? keys = none ↔ keys = [] := by
  induction keys using List.reverseRecOn with
  | nil => simp [mostUsed?]
  | append_singleton keys k ih => simp [mostUsed?_append_singleton]

/-- Going through keys in rising order and changing to a key only if it is used more finds the most used
one. -/
theorem isMostUsed_of_mostUsed? (hsorted : keys.Pairwise fun x y => x.1 < y.1)
    (h : mostUsed? keys = some k) : IsMostUsed keys k := by
  induction keys using List.reverseRecOn generalizing k with
  | nil => exact absurd h (by simp [mostUsed?])
  | append_singleton keys last ih =>
      obtain ⟨hkeys, -, hlast⟩ := List.pairwise_append.mp hsorted
      rw [mostUsed?_append_singleton, Option.some_inj] at h
      cases hbest : mostUsed? keys with
      | none =>
          rw [hbest] at h
          obtain rfl : last = k := h
          rw [mostUsed?_eq_none_iff.mp hbest]
          simp [IsMostUsed]
      | some best =>
          obtain ⟨hmem, hmost⟩ := ih hkeys hbest
          rw [hbest] at h
          by_cases hmore : last.2 ≤ best.2
          · -- the last key comes after the one that is kept
            obtain rfl : best = k := by simpa [Option.filter, hmore] using h
            refine ⟨List.mem_append_left _ hmem, fun other hother => ?_⟩
            rcases List.mem_append.mp hother with hother | hother
            · exact hmost other hother
            · obtain rfl := List.mem_singleton.mp hother
              rcases Nat.lt_or_eq_of_le hmore with hless | hequal
              · exact .inl hless
              · exact .inr ⟨hequal, (hlast best hmem other List.mem_cons_self).le⟩
          · obtain rfl : last = k := by simpa [Option.filter, hmore] using h
            refine ⟨List.mem_append_right _ List.mem_cons_self, fun other hother => ?_⟩
            rcases List.mem_append.mp hother with hother | hother
            · have hless := hmost other hother
              exact .inl (by omega)
            · obtain rfl := List.mem_singleton.mp hother
              exact .inr ⟨rfl, le_refl _⟩

end mostUsed

/-! ## Sites and common keys -/

variable {p : Project} {scripts : List Script} {key target : String} {sites : List Site}

/-- The sites at which the scripts access a key. -/
def keySites (scripts : List Script) (key : String) : List Site :=
  scripts.flatMap fun s => (s.facts.accesses.filter (·.key == key)).map fun a => ⟨s.path, a.line⟩

/-- A common key is one edit away. -/
def IsNearKey (scripts : List Script) (key target : String) : Prop :=
  3 ≤ (keySites scripts target).length ∧ Naming.IsOneEditAway key.toList target.toList

/-- The key that is meant by a misspelt one: of the common keys one edit away the one with most sites, and
the first in alphabetical order among these. -/
structure IsMeant (scripts : List Script) (key target : String) : Prop where
  near : IsNearKey scripts key target
  most : ∀ other, IsNearKey scripts key other →
    (keySites scripts other).length < (keySites scripts target).length ∨
      (keySites scripts other).length = (keySites scripts target).length ∧ target ≤ other

/-- An issue reports a misspelt key at its only site and suggests the key that is meant. -/
structure IsTypoIssue (scripts : List Script) (key : String) (i : Issue) : Prop where
  site : keySites scripts key = [⟨i.file, i.line⟩]
  kind : i.kind = "possible_key_typo"
  meant : ∃ target, IsMeant scripts key target ∧
    i.message = "key \"" ++ key ++ "\" is used once; \"" ++ target ++ "\" is used " ++
      toString (keySites scripts target).length ++ " times" ∧
    i.suggestion = some ("\"" ++ target ++ "\"")

/-- The index has the sites of each key that is accessed. -/
theorem get?_dictKeys (hp : p.IsLoaded) (key : String) : p.index.dictKeys.get? key =
    if keySites p.scripts key = [] then none else some (keySites p.scripts key) := by
  have hvalues : Index.valuesOf (p.scripts.flatMap fun s =>
      (s.facts.accesses.map fun a => (a.key, a.line)).map fun use =>
        (use.1, Site.mk s.path use.2)) key = keySites p.scripts key := by
    unfold Index.valuesOf keySites
    rw [List.filter_flatMap, List.map_flatMap]
    refine congrArg (p.scripts.flatMap ·) (funext fun s => ?_)
    rw [List.map_map, List.filter_map, List.map_map]
    rfl
  rw [Project.index_eq_build hp, ← hvalues]
  exact Index.get?_group _ key

/-- Each key is in the index once, in rising order. -/
theorem pairwise_keys_dictKeys (hp : p.IsLoaded) : p.index.dictKeys.keys.Pairwise (· < ·) := by
  rw [Project.index_eq_build hp]
  exact Index.pairwise_keys_group _

/-- The entries of the index are the keys that are accessed, with their sites. -/
theorem mem_dictKeys_iff (hp : p.IsLoaded) : (key, sites) ∈ p.index.dictKeys.entries ↔
    sites ≠ [] ∧ keySites p.scripts key = sites := by
  constructor
  · intro hmem
    have hget := SortedMap.get?_of_mem_entries (pairwise_keys_dictKeys hp) hmem
    rw [get?_dictKeys hp] at hget
    split_ifs at hget with hnone
    rw [← Option.some_inj.mp hget]
    exact ⟨hnone, rfl⟩
  · rintro ⟨hne, rfl⟩
    apply SortedMap.mem_entries_of_get?
    rw [get?_dictKeys hp, if_neg hne]

/-- The keys with their numbers of uses, if they are used often enough. -/
def commonKeys (p : Project) : List (String × Nat) :=
  (p.index.dictKeys.entries.map fun (key, sites) => (key, sites.length)).filter
    fun (_, uses) => commonUses ≤ uses

theorem mem_commonKeys_iff (hp : p.IsLoaded) {k : String × Nat} : k ∈ commonKeys p ↔
    3 ≤ (keySites p.scripts k.1).length ∧ k.2 = (keySites p.scripts k.1).length := by
  obtain ⟨target, uses⟩ := k
  unfold commonKeys
  simp only [List.mem_filter, List.mem_map, Prod.exists, mem_dictKeys_iff hp, decide_eq_true_iff]
  constructor
  · rintro ⟨⟨_, _, ⟨-, rfl⟩, heq⟩, hcommon⟩
    obtain ⟨rfl, rfl⟩ := Prod.mk.inj heq
    exact ⟨hcommon, rfl⟩
  · rintro ⟨hcommon, rfl⟩
    refine ⟨⟨target, _, ⟨?_, rfl⟩, rfl⟩, hcommon⟩
    rintro hnone
    rw [hnone] at hcommon
    exact absurd hcommon (by decide)

/-- The keys that a key may be meant for: common keys one edit away. -/
def nearKeys (p : Project) (key : String) : List (String × Nat) :=
  (commonKeys p).filter fun k => Naming.oneEditApart key.toList k.1.toList

theorem mem_nearKeys_iff (hp : p.IsLoaded) {k : String × Nat} : k ∈ nearKeys p key ↔
    IsNearKey p.scripts key k.1 ∧ k.2 = (keySites p.scripts k.1).length := by
  unfold nearKeys IsNearKey
  rw [List.mem_filter, mem_commonKeys_iff hp, Naming.oneEditApart_iff]
  exact and_right_comm

/-- The most used of them is the one that is meant. -/
theorem isMeant_of_mostUsed? (hp : p.IsLoaded) {k : String × Nat}
    (h : mostUsed? (nearKeys p key) = some k) :
    IsMeant p.scripts key k.1 ∧ k.2 = (keySites p.scripts k.1).length := by
  have hsorted : (nearKeys p key).Pairwise fun x y => x.1 < y.1 := by
    refine List.Pairwise.filter _ (List.Pairwise.filter _ (List.pairwise_map.mpr ?_))
    exact List.pairwise_map.mp (pairwise_keys_dictKeys hp)
  obtain ⟨hmem, hmost⟩ := isMostUsed_of_mostUsed? hsorted h
  obtain ⟨hnear, huses⟩ := (mem_nearKeys_iff hp).mp hmem
  refine ⟨⟨hnear, fun other hother => ?_⟩, huses⟩
  rw [← huses]
  exact hmost (other, _) ((mem_nearKeys_iff hp).mpr ⟨hother, rfl⟩)

/-- There is one that is meant if any is near. -/
theorem isSome_mostUsed?_iff (hp : p.IsLoaded) :
    (mostUsed? (nearKeys p key)).isSome = true ↔ ∃ target, IsNearKey p.scripts key target := by
  rw [Option.isSome_iff_ne_none, ne_eq, mostUsed?_eq_none_iff]
  constructor
  · intro hne
    obtain ⟨k, hk⟩ := List.exists_mem_of_ne_nil _ hne
    exact ⟨k.1, ((mem_nearKeys_iff hp).mp hk).1⟩
  · rintro ⟨target, hnear⟩ hnone
    have hmem : (target, (keySites p.scripts target).length) ∈ nearKeys p key :=
      (mem_nearKeys_iff hp).mpr ⟨hnear, rfl⟩
    rw [hnone] at hmem
    exact absurd hmem List.not_mem_nil

/-! ## The report -/

/-- A key has an issue if it is used once and a common key is near. -/
theorem isSome_keyTypoIssue?_iff (hp : p.IsLoaded) :
    (keyTypoIssue? (commonKeys p) key sites).isSome = true ↔
      (∃ site, sites = [site]) ∧ ∃ target, IsNearKey p.scripts key target := by
  unfold keyTypoIssue?
  split
  · rw [Option.isSome_map, ← nearKeys, isSome_mostUsed?_iff hp]
    simp
  · rename_i hother
    refine iff_of_false (by simp) ?_
    rintro ⟨⟨site, hsite⟩, -⟩
    exact hother site hsite

/-- The issue of a key names its only site and the key that is meant. -/
theorem isTypoIssue_of_keyTypoIssue? (hp : p.IsLoaded) {i : Issue}
    (h : keyTypoIssue? (commonKeys p) key (keySites p.scripts key) = some i) :
    IsTypoIssue p.scripts key i := by
  unfold keyTypoIssue? at h
  split at h
  · rename_i site hsites
    rw [Option.map_eq_some_iff] at h
    obtain ⟨k, hbest, rfl⟩ := h
    obtain ⟨hmeant, huses⟩ := isMeant_of_mostUsed? hp hbest
    exact ⟨hsites, rfl, k.1, hmeant, by rw [← huses], rfl⟩
  · exact absurd h (by simp)

/-- **Misspelt keys are those used once with a common key one edit away**, in every project. The comparison
of two keys is exact and does not depend on their order. -/
theorem dictKeys_tellsTypos (hp : p.IsLoaded) (options : Options) :
    (∀ a b : String, Naming.oneEditApart a.toList b.toList = true ↔
      Naming.IsOneEditAway a.toList b.toList) ∧
    (∀ a b : String, Naming.oneEditApart a.toList b.toList = Naming.oneEditApart b.toList a.toList) ∧
    ∃ findings, dictKeys.run ⟨p, options⟩ = .finished findings ∧ ∃ reported : List String,
      reported.Pairwise (· < ·) ∧
      (∀ key, key ∈ reported ↔ (∃ site, keySites p.scripts key = [site]) ∧
        ∃ target, IsNearKey p.scripts key target) ∧
      List.Forall₂ (IsTypoIssue p.scripts) reported findings.issues := by
  refine ⟨fun _ _ => Naming.oneEditApart_iff, fun _ _ => Naming.oneEditApart_comm .., _, rfl, ?_⟩
  let hasIssue := fun entry : String × List Site =>
    (keyTypoIssue? (commonKeys p) entry.1 entry.2).isSome
  refine ⟨(p.index.dictKeys.entries.filter hasIssue).map (·.1), ?_, fun key => ?_, ?_⟩
  · exact (pairwise_keys_dictKeys hp).sublist (List.filter_sublist.map _)
  · simp only [List.mem_map, List.mem_filter, Prod.exists, exists_and_right, exists_eq_right,
      mem_dictKeys_iff hp, hasIssue, isSome_keyTypoIssue?_iff hp]
    constructor
    · rintro ⟨_, ⟨-, rfl⟩, hreported⟩
      exact hreported
    · rintro ⟨⟨site, hsite⟩, hnear⟩
      exact ⟨_, ⟨by simp [hsite], rfl⟩, ⟨site, hsite⟩, hnear⟩
  · refine SortedMap.forall₂_filterMap fun entry hentry i hissue => ?_
    obtain ⟨-, hsites⟩ := (mem_dictKeys_iff hp).mp hentry
    rw [← hsites] at hissue
    exact isTypoIssue_of_keyTypoIssue? hp hissue

/-- Two common keys, each used three times, and one key beside them that is used once. -/
private def misspelt : Project := Project.ofFiles {}
  [("a.gd", "func f(d):\n\tvar x = d[\"cost\"]\n\tvar y = d[\"cast\"]\n\tvar z = d[\"cst\"]\n"),
    ("b.gd", "func g(d):\n\tvar x = d[\"cost\"]\n\tvar y = d.get(\"cast\", 0)\n"),
    ("c.gd", "func h(d):\n\tvar x = d[\"cost\"]\n\tvar y = d[\"cast\"]\n")]

theorem dictKeys_tellsTypos_misspelt : misspelt.IsLoaded ∧
    ∃ findings, dictKeys.run ⟨misspelt, {}⟩ = .finished findings ∧
      (∃ i ∈ findings.issues, IsTypoIssue misspelt.scripts "cst" i) ∧
      findings.issues.map (·.suggestion) = [some "\"cast\""] := by
  have hloaded : misspelt.IsLoaded := .ofFiles ..
  have hsite : keySites misspelt.scripts "cst" = [⟨"a.gd", 4⟩] := by decide +kernel
  have hcommon : 3 ≤ (keySites misspelt.scripts "cost").length := by decide +kernel
  have hedit : Naming.IsOneEditAway "cst".toList "cost".toList :=
    ⟨by decide, .insert ['c'] ['s', 't'] 'o'⟩
  obtain ⟨-, -, findings, hrun, reported, -, hreported, hissues⟩ := dictKeys_tellsTypos hloaded {}
  have hmem : "cst" ∈ reported := (hreported _).mpr ⟨⟨_, hsite⟩, "cost", hcommon, hedit⟩
  refine ⟨hloaded, findings, hrun, ?_, ?_⟩
  · obtain ⟨n, hn, hget⟩ := List.mem_iff_getElem.mp hmem
    have hlength : n < findings.issues.length := hissues.length_eq ▸ hn
    refine ⟨findings.issues[n], List.getElem_mem hlength, ?_⟩
    rw [← hget]
    exact hissues.get hn hlength
  · obtain rfl := Outcome.finished.inj hrun
    decide +kernel

end GodotLint.Check
