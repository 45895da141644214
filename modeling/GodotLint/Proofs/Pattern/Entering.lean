import GodotLint.Proofs.Pattern.Shift

/-!
# Patterns that enter the beginning of a text

Behind two beginnings that agree a pattern finds the same, but for what it accepts inside of them. Two
shapes of patterns enter the beginnings and come out of them at the same place. One is anchored and
starts with a part that runs through the blanks at the start of the text, and cannot stop before it is
through (`rel_find?_of_enters`). The other asks for the start of the text, or for one character of a
class, before the rest, and finds the rest behind the beginnings only (`rel_find?_of_edge`).
-/

namespace GodotLint.Pattern

open Text

variable {a a' s : List Char} {is : List Nat} {p g : Pattern} {items : List ClassItem}

/-! ## The first part of a pattern -/

/-- The first of the parts that a pattern has one after the other. -/
def first : Pattern → Pattern
  | .seq p _ => p.first
  | p => p

/-- The parts after the first. -/
def later : Pattern → Pattern
  | .seq (.seq p q) r => .seq (later (.seq p q)) r
  | .seq _ q => q
  | _ => .empty

/-- A pattern is its first part and then the others, however they are put together. -/
theorem run_first_later (p : Pattern) : p.run = (p.first ++ p.later).run := by
  induction p with
  | seq p q ihp _ =>
      funext b k
      cases p with
      | seq p₁ p₂ => exact congrFun (congrFun ihp b) fun t => q.run t k
      | _ => rfl
  | _ => rfl

/-- A pattern with a given first part. -/
theorem run_of_first {g : Pattern} (h : p.first = g) : p.run = (g ++ p.later).run := by
  rw [run_first_later, h]

/-! ## Patterns that run through the blanks at the start -/

/-- A part that runs through the beginnings at the start of both texts, if it cannot stop in them. -/
def Enters (a a' s : List Char) (indices : List Nat) (g : Pattern) : Prop :=
  ∀ (T : Progress → Progress → Prop) (k k' : Continuation),
    (∀ x ∈ a, ∀ pre post gs, k (.at pre (x :: post) gs) = none) →
    (∀ x ∈ a', ∀ pre post gs, k' (.at pre (x :: post) gs) = none) →
    (∀ q q', Behind a a' s indices q q' → Option.Rel T (k q) (k' q')) →
    Option.Rel T (g.run (.at [] (a ++ s) []) k) (g.run (.at [] (a' ++ s) []) k')

theorem enters_blanks (h : AlikeBehind a a') (ha : ∀ x ∈ a, isBlank x = true)
    (ha' : ∀ x ∈ a', isBlank x = true) : Enters a a' s is blanks := by
  intro T k k' hstop hstop' hk
  -- whatever is not consumed of a beginning would stand in front of what comes after
  have hskip : ∀ {b : List Char} {k : Continuation}, (∀ x ∈ b, isBlank x = true) →
      (∀ x ∈ b, ∀ pre post gs, k (.at pre (x :: post) gs) = none) →
      blanks.run (.at [] (b ++ s) []) k = blanks.run (.at b s []) k := by
    intro b k hb hnone
    refine run_star_skip [] (fun x hx => by simp [ClassItem.holds, hb x hx]) ?_
    intro u v huv hv
    obtain ⟨x, v, rfl⟩ := List.exists_cons_of_ne_nil hv
    exact hnone x (by simp [huv]) _ _ _
  rw [hskip ha hstop, hskip ha' hstop']
  have hstart : Behind a a' s is (.at (a ++ []) s []) (.at (a' ++ []) s []) := .of rfl .nil
  rw [List.append_nil, List.append_nil] at hstart
  exact follows_run h blanks T _ _ k k' hstart hk

theorem Enters.group {index : Nat} (hg : Enters a a' s is p) (hindex : index ∈ is) :
    Enters a a' s is (group index p) := by
  intro T k k' hstop hstop' hk
  refine hg T _ _ (fun x hx pre post gs => hstop x hx pre post _)
    (fun x hx pre post gs => hstop' x hx pre post _) fun t t' ht => hk _ _ ?_
  obtain ⟨rfl, hgroups⟩ := ht
  rename_i w rest gs gs'
  have hremember := remember_at index [] (a ++ w) rest [] gs
  have hremember' := remember_at index [] (a' ++ w) rest [] gs'
  rw [List.nil_append] at hremember hremember'
  rw [← List.append_assoc, ← List.append_assoc, hremember, hremember']
  exact .of rfl (.start hindex hgroups)

/-- **A pattern that runs through the blanks at the start finds the same** if the parts after these
accept nothing before the characters of the beginnings. -/
theorem rel_find?_of_enters (h : AlikeBehind a a') (hstart : p.first = .atStart)
    (hg : p.later.first = g) (henters : Enters a a' s is g)
    (ha : ∀ x ∈ a, p.later.later.front x = .nothing)
    (ha' : ∀ x ∈ a', p.later.later.front x = .nothing) (hp : p.isAnchored = true) :
    Option.Rel (MatchBehind a a' is) (p.find? (a ++ s)) (p.find? (a' ++ s)) := by
  have hparts : ∀ t, p.run (.at [] t []) some =
      g.run (.at [] t []) fun b => p.later.later.run b some := by
    intro t
    rw [run_of_first hstart]
    show check true (.at [] t []) (p.later.run · some) = _
    rw [check, if_pos rfl, run_of_first hg]
    rfl
  have hrun := henters (Behind a a' s is) (fun b => p.later.later.run b some)
    (fun b => p.later.later.run b some) (fun x hx _ _ _ => run_eq_none_of_front (ha x hx) some)
    (fun x hx _ _ _ => run_eq_none_of_front (ha' x hx) some)
    fun b b' hb => follows_run h _ (Behind a a' s is) b b' some some hb fun _ _ => .some
  rw [← hparts, ← hparts] at hrun
  rw [find?_of_isAnchored hp, find?_of_isAnchored hp]
  show Option.Rel _ ((p.run (.at [] (a ++ s) []) some).map _) ((p.run (.at [] (a' ++ s) []) some).map _)
  revert hrun
  generalize p.run (.at [] (a ++ s) []) some = r
  generalize p.run (.at [] (a' ++ s) []) some = r'
  rintro (⟨⟨-, hgroups⟩⟩ | _)
  · exact .some ⟨hgroups, _, _, rfl, rfl⟩
  · exact .none

/-! ## Patterns that ask for an edge first -/

/-- The start of the text, or one character of a class. -/
def edge (items : List ClassItem) : Pattern := .alt .atStart (.oneOf items)

/-- Such a pattern goes on behind a character of the class only, if its rest accepts nothing before the
character. -/
theorem run_edge_cons {pre post : List Char} {x : Char} (hfirst : p.first = edge items)
    (hx : items.any (·.holds x) = true) (hq : p.later.front x = .nothing) :
    p.run (.at pre (x :: post) []) some = p.later.run (.at (pre ++ [x]) post []) some := by
  rw [run_of_first hfirst]
  show (edge items).run (.at pre (x :: post) []) (p.later.run · some) = _
  rw [edge, run_alt]
  have hstay : atStart.run (.at pre (x :: post) []) (p.later.run · some) = none := by
    show check _ _ _ = none
    rw [check, run_eq_none_of_front hq]
    exact ite_self none
  rw [hstay, Option.none_or]
  show consume _ _ _ = _
  rw [consume_at_cons, if_pos hx]

/-- So it is looked for behind a text of such characters, from the last of them on. -/
theorem find?_edge_append {l : List Char} {x : Char} (hfirst : p.first = edge items)
    (hitems : ∀ y ∈ l ++ [x], items.any (·.holds y) = true)
    (hq : ∀ y ∈ l ++ [x], p.later.front y = .nothing) (s : List Char) :
    p.find? (l ++ [x] ++ s) = ((p.later.run (.at (l ++ [x]) s []) some).map fun t =>
      ⟨⟨width l, (x :: s).take ((x :: s).length - t.cursor.rest.length)⟩, t.groups, t.cursor⟩).or
      (p.findFrom? (l ++ [x]).getLast? (width (l ++ [x])) s) := by
  have hskip := findFrom?_skip (p := p) (a := l) [] (x :: s) ?_
  · rw [List.append_assoc, List.singleton_append]
    show p.findFrom? [].getLast? (width []) (l ++ x :: s) = _
    rw [hskip, List.nil_append, findFrom?_cons]
    show ((p.run (.at l (x :: s) []) some).map _).or _ = _
    rw [run_edge_cons hfirst (hitems x (by simp)) (hq x (by simp))]
    rfl
  · rintro u v rfl hv hstarts
    obtain ⟨y, v, rfl⟩ := List.exists_cons_of_ne_nil hv
    refine matchAt?_eq_none_iff.mp ?_ hstarts
    show (p.run (.at ([] ++ u) (y :: (v ++ x :: s)) []) some).map _ = none
    rw [run_edge_cons hfirst (hitems y (by simp)) (hq y (by simp))]
    obtain ⟨z, rest, hrest, hz⟩ : ∃ z rest, v ++ x :: s = z :: rest ∧ z ∈ v ++ [x] := by
      cases v with
      | nil => exact ⟨x, s, rfl, by simp⟩
      | cons z v => exact ⟨z, v ++ x :: s, rfl, by simp⟩
    rw [hrest, run_eq_none_of_front (hq z (by simp at hz ⊢; tauto))]
    rfl

/-- **A pattern that asks for an edge first finds the same** behind beginnings of the class, if its rest
accepts nothing before their characters. -/
theorem rel_find?_of_edge (h : AlikeBehind a a') (hfirst : p.first = edge items)
    (hitems : ∀ x ∈ a, items.any (·.holds x) = true) (hitems' : ∀ x ∈ a', items.any (·.holds x) = true)
    (hq : ∀ x ∈ a, p.later.front x = .nothing) (hq' : ∀ x ∈ a', p.later.front x = .nothing)
    (s : List Char) :
    Option.Rel (MatchBehind a a' []) (p.find? (a ++ s)) (p.find? (a' ++ s)) := by
  have hbehind := rel_findFrom? h p [] s
  rw [List.append_nil, List.append_nil] at hbehind
  have hweaken : ∀ {o o'}, Option.Rel (SameMatch a a') o o' →
      Option.Rel (MatchBehind a a' []) o o' := by
    rintro _ _ (hsame | _)
    · exact .some hsame.toMatchBehind
    · exact .none
  rcases List.eq_nil_or_concat a with rfl | ⟨l, x, rfl⟩
  · obtain rfl := h.nil_iff.mp rfl
    exact hweaken hbehind
  rcases List.eq_nil_or_concat a' with rfl | ⟨l', x', rfl⟩
  · exact absurd (h.nil_iff.mpr rfl) (by simp)
  rw [List.concat_eq_append] at *
  rw [List.concat_eq_append] at *
  rw [find?_edge_append hfirst hitems hq, find?_edge_append hfirst hitems' hq']
  refine rel_or ?_ (hweaken hbehind)
  have hstart : Behind (l ++ [x]) (l' ++ [x']) s [] (.at (l ++ [x] ++ []) s [])
      (.at (l' ++ [x'] ++ []) s []) := .of rfl .nil
  rw [List.append_nil, List.append_nil] at hstart
  have hrun := follows_run h p.later (Behind (l ++ [x]) (l' ++ [x']) s []) _ _ some some hstart
    fun _ _ => .some
  revert hrun
  generalize p.later.run (.at (l ++ [x]) s []) some = r
  generalize p.later.run (.at (l' ++ [x']) s []) some = r'
  rintro (⟨⟨-, hgroups⟩⟩ | _)
  · exact .some ⟨hgroups, _, _, rfl, rfl⟩
  · exact .none

end GodotLint.Pattern
