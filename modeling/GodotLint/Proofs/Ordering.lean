import Mathlib
import GodotLint.Ordering

/-!
# Stable sorting

`stableSort` is an insertion sort, so its theory is that of the insertion sort: the result is a
rearrangement, it is in order, and a list that is in order already stays as it is. What `lastMax?` picks
has the largest key of all (`mem_of_lastMax?`).
-/

namespace GodotLint

variable {α : Type}

theorem insertBefore_eq_orderedInsert (le : α → α → Bool) (x : α) (l : List α) :
    insertBefore le x l = l.orderedInsert (fun a b => le a b = true) x := by
  induction l with
  | nil => rfl
  | cons y l ih => simp only [insertBefore, List.orderedInsert, ih]

theorem stableSort_eq_insertionSort (le : α → α → Bool) (l : List α) :
    stableSort le l = l.insertionSort (fun a b => le a b = true) := by
  induction l with
  | nil => rfl
  | cons x l ih =>
      rw [List.insertionSort_cons, ← ih, ← insertBefore_eq_orderedInsert]
      rfl

/-- Sorting rearranges. -/
theorem stableSort_perm (le : α → α → Bool) (l : List α) : (stableSort le l).Perm l := by
  rw [stableSort_eq_insertionSort]
  exact List.perm_insertionSort _ l

/-- Sorting keeps and adds no element. -/
@[simp] theorem mem_stableSort {le : α → α → Bool} {l : List α} {x : α} :
    x ∈ stableSort le l ↔ x ∈ l :=
  (stableSort_perm le l).mem_iff

/-- Taking each element once keeps and adds none. -/
@[simp] theorem mem_sortedSet {xs : List String} {x : String} : x ∈ sortedSet xs ↔ x ∈ xs := by
  have hdistinct : ∀ ys : List String, x ∈ ys.foldr
      (fun y acc => if acc.head? == some y then acc else y :: acc) [] ↔ x ∈ ys := by
    intro ys
    induction ys with
    | nil => rfl
    | cons y ys ih =>
        rw [List.foldr_cons]
        split_ifs with hhead
        · -- what is left out stands at the head
          rw [beq_iff_eq] at hhead
          rw [ih, List.mem_cons]
          refine ⟨.inr, ?_⟩
          rintro (rfl | hx)
          · exact ih.mp (List.mem_of_mem_head? hhead)
          · exact hx
        · rw [List.mem_cons, List.mem_cons, ih]
  rw [sortedSet, hdistinct, mem_stableSort]

/-- The result of sorting is in order. -/
theorem pairwise_stableSort {le : α → α → Bool} (total : ∀ a b, le a b ∨ le b a)
    (trans : ∀ a b c, le a b → le b c → le a c) (l : List α) :
    (stableSort le l).Pairwise fun a b => le a b = true := by
  have : Std.Total fun a b => le a b = true := ⟨total⟩
  have : IsTrans α fun a b => le a b = true := ⟨trans⟩
  rw [stableSort_eq_insertionSort]
  exact List.pairwise_insertionSort _ l

/-- Sorting and then choosing some elements gives these as they stood before, if they stood in
order. -/
theorem filter_stableSort {le : α → α → Bool} {p : α → Bool} {l : List α}
    (sorted : (l.filter p).Pairwise fun a b => le a b = true) :
    (stableSort le l).filter p = l.filter p := by
  have hperm : ((stableSort le l).filter p).Perm (l.filter p) := (stableSort_perm le l).filter p
  have hsub : (l.filter p).Sublist (stableSort le l) := by
    rw [stableSort_eq_insertionSort]
    exact List.sublist_insertionSort sorted List.filter_sublist
  have hchosen := hsub.filter p
  rw [List.filter_filter] at hchosen
  simp only [Bool.and_self] at hchosen
  exact (hchosen.eq_of_length hperm.length_eq.symm).symm

/-- Sorting and then choosing some elements of which no two tie gives these in their one order. -/
theorem filter_stableSort_eq {le : α → α → Bool} (total : ∀ a b, le a b ∨ le b a)
    (trans : ∀ a b c, le a b → le b c → le a c) {p : α → Bool} {l t : List α}
    (perm : t.Perm (l.filter p)) (strict : t.Pairwise fun a b => le a b = true ∧ ¬ le b a = true) :
    (stableSort le l).filter p = t := by
  have hties : t.Pairwise fun a b => ¬ (le a b = true ∧ le b a = true) :=
    strict.imp fun hab hties => hab.2 hties.2
  have : Std.Symm fun a b => ¬ (le a b = true ∧ le b a = true) := ⟨fun _ _ h hba => h hba.symm⟩
  have hperm : ((stableSort le l).filter p).Perm t := ((stableSort_perm le l).filter p).trans perm.symm
  refine List.Perm.eq_of_pairwise (fun a b ha hb hab hba => ?_)
    ((pairwise_stableSort total trans l).filter p) (strict.imp And.left) hperm
  by_contra hne
  exact hties.forall (hperm.mem_iff.mp ha) hb hne ⟨hab, hba⟩

/-- Elements that may precede each other keep their order. -/
theorem sublist_stableSort_iff {le : α → α → Bool} (trans : ∀ a b c, le a b → le b c → le a c)
    {a : α} {c l : List α} (tied : ∀ x ∈ c, (le a x && le x a) = true) :
    c.Sublist (stableSort le l) ↔ c.Sublist l := by
  have hsorted : (l.filter fun x => le a x && le x a).Pairwise fun x y => le x y = true := by
    refine List.pairwise_of_forall_mem_list fun x hx y hy => ?_
    obtain ⟨-, hx⟩ := List.mem_filter.mp hx
    obtain ⟨-, hy⟩ := List.mem_filter.mp hy
    rw [Bool.and_eq_true] at hx hy
    exact trans x a y hx.2 hy.1
  have hchosen : ∀ s : List α, c.Sublist s ↔ c.Sublist (s.filter fun x => le a x && le x a) := by
    intro s
    constructor
    · intro h
      rw [← List.filter_eq_self.mpr tied]
      exact h.filter _
    · intro h
      exact h.trans List.filter_sublist
  rw [hchosen, filter_stableSort hsorted, ← hchosen]

/-- Choosing some elements of a list in order and then putting one in is putting it in and then
choosing. -/
theorem filter_insertBefore {le : α → α → Bool} (trans : ∀ a b c, le a b → le b c → le a c)
    {p : α → Bool} {x : α} {l : List α} (sorted : l.Pairwise fun a b => le a b = true) :
    (insertBefore le x l).filter p =
      if p x then insertBefore le x (l.filter p) else l.filter p := by
  induction l with
  | nil => cases hx : p x <;> simp [insertBefore, hx]
  | cons y l ih =>
      obtain ⟨hy, hl⟩ := List.pairwise_cons.mp sorted
      rw [insertBefore]
      split_ifs with hxy hx hx
      · -- `x` precedes everything that is chosen
        have hfirst : ∀ z ∈ (y :: l).filter p, le x z = true := by
          intro z hz
          rcases List.mem_cons.mp (List.mem_of_mem_filter hz) with rfl | hz
          · exact hxy
          · exact trans x y z hxy (hy z hz)
        rw [List.filter_cons_of_pos hx]
        cases hchosen : (y :: l).filter p with
        | nil => rfl
        | cons z rest =>
            rw [hchosen] at hfirst
            rw [insertBefore, if_pos (hfirst z List.mem_cons_self)]
      · rw [List.filter_cons_of_neg hx]
      · rw [List.filter_cons, List.filter_cons, ih hl, if_pos hx]
        split_ifs
        · rw [insertBefore, if_neg hxy]
        · rfl
      · rw [List.filter_cons, List.filter_cons, ih hl, if_neg hx]

/-- Sorting and then choosing some elements is choosing them and then sorting. -/
theorem filter_stableSort_comm {le : α → α → Bool} (total : ∀ a b, le a b ∨ le b a)
    (trans : ∀ a b c, le a b → le b c → le a c) (p : α → Bool) (l : List α) :
    (stableSort le l).filter p = stableSort le (l.filter p) := by
  induction l with
  | nil => rfl
  | cons x l ih =>
      have hsorted := pairwise_stableSort total trans l
      change (insertBefore le x (stableSort le l)).filter p = _
      rw [filter_insertBefore trans hsorted, ih, List.filter_cons]
      split_ifs <;> rfl

theorem insertBefore_map {β : Type} (le : β → β → Bool) (f : α → β) (x : α) (l : List α) :
    insertBefore le (f x) (l.map f) = (insertBefore (fun a b => le (f a) (f b)) x l).map f := by
  induction l with
  | nil => rfl
  | cons y l ih =>
      rw [List.map_cons, insertBefore, insertBefore, ih]
      split_ifs <;> rfl

/-- Sorting images is sorting by how the images compare. -/
theorem stableSort_map {β : Type} (le : β → β → Bool) (f : α → β) (l : List α) :
    stableSort le (l.map f) = (stableSort (fun a b => le (f a) (f b)) l).map f := by
  induction l with
  | nil => rfl
  | cons x l ih =>
      change insertBefore le (f x) (stableSort le (l.map f)) = _
      rw [ih, insertBefore_map]
      rfl

section related

variable {β : Type} {R : α → β → Prop} {le : α → α → Bool} {le' : β → β → Bool}

theorem forall₂_insertBefore (hle : ∀ x x' y y', R x x' → R y y' → le x y = le' x' y') {x : α} {x' : β}
    (hx : R x x') {l : List α} {l' : List β} (h : List.Forall₂ R l l') :
    List.Forall₂ R (insertBefore le x l) (insertBefore le' x' l') := by
  induction h with
  | nil => exact .cons hx .nil
  | cons hy hrest ih =>
      rw [insertBefore, insertBefore, hle _ _ _ _ hx hy]
      split_ifs
      · exact .cons hx (.cons hy hrest)
      · exact .cons hy ih

/-- Related lists are sorted alike if related elements compare alike. -/
theorem forall₂_stableSort (hle : ∀ x x' y y', R x x' → R y y' → le x y = le' x' y') {l : List α}
    {l' : List β} (h : List.Forall₂ R l l') :
    List.Forall₂ R (stableSort le l) (stableSort le' l') := by
  induction h with
  | nil => exact .nil
  | cons hx _ ih => exact forall₂_insertBefore hle hx ih

end related

/-- Two lists in strictly rising order are equal if they have the same elements. -/
theorem eq_of_pairwise_of_mem_iff {R : α → α → Prop} (asymm : ∀ a b, R a b → ¬ R b a) {l l' : List α}
    (h : l.Pairwise R) (h' : l'.Pairwise R) (hmem : ∀ x, x ∈ l ↔ x ∈ l') : l = l' := by
  have hnodup : ∀ {k : List α}, k.Pairwise R → k.Nodup := fun hk => hk.imp fun {a b} hab heq => by
    subst heq
    exact asymm a a hab hab
  have hperm : l.Perm l' := (List.perm_ext_iff_of_nodup (hnodup h) (hnodup h')).mpr hmem
  exact List.Perm.eq_of_pairwise (fun a b _ _ hab hba => absurd hba (asymm a b hab)) h h' hperm

/-- The sum over images. -/
theorem sumOf_map {β : Type} (number : β → Nat) (f : α → β) (xs : List α) :
    sumOf number (xs.map f) = sumOf (number ∘ f) xs :=
  List.foldr_map

/-- A sum is zero if its parts are. -/
theorem sumOf_eq_zero_iff {number : α → Nat} {xs : List α} :
    sumOf number xs = 0 ↔ ∀ x ∈ xs, number x = 0 := by
  induction xs with
  | nil => simp [sumOf]
  | cons x rest ih =>
      rw [List.forall_mem_cons, ← ih]
      exact Nat.add_eq_zero_iff

/-! ## Dropping repetitions -/

section repeats

variable [BEq α] [LawfulBEq α] {l : List α} {x : α}

/-- Only elements are dropped. -/
theorem dropRepeats_sublist (l : List α) : (dropRepeats l).Sublist l := by
  induction l using dropRepeats.induct with
  | case1 => simp [dropRepeats]
  | case2 x => simp [dropRepeats]
  | case3 x y rest heq ih =>
      rw [dropRepeats, if_pos heq]
      rw [beq_iff_eq] at heq
      rw [heq] at ih ⊢
      exact ih.cons _
  | case4 x y rest hne ih =>
      rw [dropRepeats, if_neg hne]
      exact ih.cons_cons _

/-- An element that is dropped stands elsewhere. -/
@[simp] theorem mem_dropRepeats : x ∈ dropRepeats l ↔ x ∈ l := by
  refine ⟨(dropRepeats_sublist l).mem, ?_⟩
  induction l using dropRepeats.induct with
  | case1 => simp [dropRepeats]
  | case2 => simp [dropRepeats]
  | case3 y z rest heq ih =>
      rw [dropRepeats, if_pos heq]
      rw [beq_iff_eq] at heq
      intro hx
      refine ih ?_
      simpa [heq] using hx
  | case4 y z rest hne ih =>
      rw [dropRepeats, if_neg hne]
      intro hx
      rcases List.mem_cons.mp hx with rfl | hx
      · exact List.mem_cons_self
      · exact List.mem_cons_of_mem _ (ih hx)

/-- Dropping each element that equals the one before it leaves no two equal elements exactly if
nothing else stands between two equal elements. -/
theorem nodup_dropRepeats_iff :
    (dropRepeats l).Nodup ↔ ∀ a b, [a, b, a].Sublist l → b = a := by
  induction l using dropRepeats.induct with
  | case1 => simp [dropRepeats]
  | case2 x => simp [dropRepeats]
  | case3 x y rest heq ih =>
      rw [dropRepeats, if_pos heq, ih]
      rw [beq_iff_eq] at heq
      subst heq
      constructor
      · intro h a b hsub
        rcases List.sublist_cons_iff.mp hsub with hsub | ⟨t, ht, hsub⟩
        · exact h a b hsub
        · -- the first of the two equal elements may be left out
          obtain ⟨rfl, rfl⟩ := List.cons.inj ht
          rcases List.sublist_cons_iff.mp hsub with hsub | ⟨t, ht, -⟩
          · exact h a b (hsub.cons_cons a)
          · exact (List.cons.inj ht).1
      · exact fun h a b hsub => h a b (hsub.cons _)
  | case4 x y rest hne ih =>
      rw [beq_iff_eq] at hne
      rw [dropRepeats, if_neg (by simpa using hne), List.nodup_cons, mem_dropRepeats, ih]
      constructor
      · rintro ⟨hx, h⟩ a b hsub
        rcases List.sublist_cons_iff.mp hsub with hsub | ⟨t, ht, hsub⟩
        · exact h a b hsub
        · obtain ⟨rfl, rfl⟩ := List.cons.inj ht
          exact absurd (hsub.mem (by simp)) hx
      · intro h
        refine ⟨fun hx => ?_, fun a b hsub => h a b (hsub.cons _)⟩
        rcases List.mem_cons.mp hx with rfl | hx
        · exact hne rfl
        · refine hne (h x y ?_).symm
          exact ((List.singleton_sublist.mpr hx).cons_cons y).cons_cons x

/-- An element that does not stand at the head of a list is kept in front of it. -/
theorem dropRepeats_cons_of_ne (h : l.head? ≠ some x) :
    dropRepeats (x :: l) = x :: dropRepeats l := by
  cases l with
  | nil => simp [dropRepeats]
  | cons y l =>
      have hne : x ≠ y := by
        rintro rfl
        exact h rfl
      rw [dropRepeats, if_neg (by simpa using hne)]

/-- Choosing some elements and then dropping repetitions is dropping and then choosing, if whatever
stands between two equal elements that are chosen is chosen too. -/
theorem filter_dropRepeats {p : α → Bool}
    (h : ∀ a b, [a, b, a].Sublist l → p a = true → p b = true) :
    (dropRepeats l).filter p = dropRepeats (l.filter p) := by
  induction l using dropRepeats.induct with
  | case1 => simp [dropRepeats]
  | case2 x => cases hx : p x <;> simp [dropRepeats, hx]
  | case3 x y rest heq ih =>
      rw [dropRepeats, if_pos heq, ih fun a b hsub => h a b (hsub.trans ?_)]
      · rw [beq_iff_eq] at heq
        subst heq
        cases hx : p x <;> simp [dropRepeats, hx]
      · exact (List.sublist_cons_self y rest).cons_cons x
  | case4 x y rest hne ih =>
      rw [beq_iff_eq] at hne
      have hrest := ih fun a b hsub => h a b (hsub.cons x)
      rw [dropRepeats, if_neg (by simpa using hne), List.filter_cons, List.filter_cons, hrest]
      split_ifs with hx
      · -- the next element that is chosen is another one
        refine (dropRepeats_cons_of_ne ?_).symm
        intro hhead
        cases hy : p y with
        | true =>
            rw [List.filter_cons_of_pos hy, List.head?_cons] at hhead
            exact hne (Option.some.inj hhead).symm
        | false =>
            rw [List.filter_cons_of_neg (by simp [hy])] at hhead
            have hmem : x ∈ rest := List.mem_of_mem_filter (List.mem_of_mem_head? hhead)
            have hsub : [x, y, x].Sublist (x :: y :: rest) :=
              ((List.singleton_sublist.mpr hmem).cons_cons y).cons_cons x
            exact Bool.false_ne_true (hy.symm.trans (h x y hsub hx))
      · rfl

end repeats

/-! ## The last of the largest elements -/

section lastMax

variable {α : Type} {key : α → Nat} {xs : List α} {x best : α}

theorem lastMax?_concat (key : α → Nat) (xs : List α) (x : α) :
    lastMax? key (xs ++ [x]) =
      match lastMax? key xs with
      | none => some x
      | some b => if key b ≤ key x then some x else some b := by
  rw [lastMax?, List.foldl_append]
  rfl

theorem lastMax?_map {β : Type} (key : β → Nat) (f : α → β) (xs : List α) :
    lastMax? key (xs.map f) = (lastMax? (key ∘ f) xs).map f := by
  induction xs using List.reverseRecOn with
  | nil => rfl
  | append_singleton xs x ih =>
      rw [List.map_append, List.map_singleton, lastMax?_concat, lastMax?_concat, ih]
      cases lastMax? (key ∘ f) xs with
      | none => rfl
      | some b =>
          simp only [Option.map_some, Function.comp_apply]
          split_ifs <;> rfl

theorem lastMax?_eq_none_iff : lastMax? key xs = none ↔ xs = [] := by
  cases xs using List.reverseRecOn with
  | nil => simp [lastMax?]
  | append_singleton xs x =>
      rw [lastMax?_concat]
      cases lastMax? key xs with
      | none => simp
      | some b =>
          simp only
          split_ifs <;> simp

/-- What is picked is an element of the list, and no element has a larger key. -/
theorem mem_of_lastMax? (h : lastMax? key xs = some best) :
    best ∈ xs ∧ ∀ x ∈ xs, key x ≤ key best := by
  induction xs using List.reverseRecOn generalizing best with
  | nil => cases h
  | append_singleton xs x ih =>
      rw [lastMax?_concat] at h
      cases hlast : lastMax? key xs with
      | none =>
          rw [hlast] at h
          rw [lastMax?_eq_none_iff] at hlast
          cases h
          simp [hlast]
      | some b =>
          obtain ⟨hb, hle⟩ := ih hlast
          rw [hlast] at h
          simp only at h
          split_ifs at h with hkey
          · cases h
            refine ⟨by simp, fun y hy => ?_⟩
            rcases List.mem_append.mp hy with hy | hy
            · exact (hle y hy).trans hkey
            · rw [List.mem_singleton.mp hy]
          · cases h
            refine ⟨by simp [hb], fun y hy => ?_⟩
            rcases List.mem_append.mp hy with hy | hy
            · exact hle y hy
            · rw [List.mem_singleton.mp hy]
              exact (not_le.mp hkey).le

end lastMax

end GodotLint
