import GodotLint.Proofs.Pattern.Parts

/-!
# Two searches side by side

Run on two texts, a search takes the same way through a pattern for as long as it cannot tell the texts
apart. What stands behind the two places is given by a relation, and a step that starts with texts in the one
relation and goes on with texts in the other carries the two searches along (`Carries`): whatever comes after
the step, both succeed or both fail. This is so of a pattern if it is of its parts, and a character is
consumed on both sides or on none (`Offers`). The two matches then have the same text and remember groups of
the same indices (`Carries.matchAt?`).
-/

namespace GodotLint.Pattern

open Text

/-! ## Places in two texts -/

/-- The place behind a text is at the same kind of edge as that behind another. -/
def SameEdge (pre pre' : List Char) : Prop :=
  pre.getLast?.elim false isWordChar = pre'.getLast?.elim false isWordChar

theorem SameEdge.refl (pre : List Char) : SameEdge pre pre := Eq.refl _

/-- The same text behind both. -/
theorem SameEdge.append {pre pre' : List Char} (h : SameEdge pre pre') (w : List Char) :
    SameEdge (pre ++ w) (pre' ++ w) := by
  cases hw : w.getLast? with
  | none => simpa [List.getLast?_eq_none_iff.mp hw] using h
  | some c => simp [SameEdge, List.getLast?_append, hw]

/-- A place in each of two texts. -/
structure Places where
  before : List Char
  after : List Char
  before' : List Char
  after' : List Char

/-- What stands behind a place in each of two texts. -/
abbrev Ahead := List Char → List Char → Prop

/-- Two searches that have read the same text from their places on. -/
inductive Abreast (o : Places) (R : Ahead) : Progress → Progress → Prop
  | of {w rest rest' : List Char} {gs gs' : List (Nat × Span)} (after : o.after = w ++ rest)
      (after' : o.after' = w ++ rest') (indices : gs.map (·.1) = gs'.map (·.1))
      (ahead : R rest rest') :
      Abreast o R (.at (o.before ++ w) rest gs) (.at (o.before' ++ w) rest' gs')

/-- A step carries two searches along, from texts in `R` to texts in `S`: they succeed alike if
everything after it does. -/
def Carries (o : Places) (R S : Ahead) (step : Progress → Continuation → Option Progress) : Prop :=
  ∀ (T : Progress → Progress → Prop) (p p' : Progress) (k k' : Continuation), Abreast o R p p' →
    (∀ q q', Abreast o S q q' → Option.Rel T (k q) (k' q')) → Option.Rel T (step p k) (step p' k')

/-- Both texts start with the same character, and what is behind it is in `S` if it satisfies `P`; or
neither starts with a character that does. -/
def Offers (P : Char → Bool) (R S : Ahead) : Prop :=
  ∀ s s', R s s' → (∃ x t t', s = x :: t ∧ s' = x :: t' ∧ (P x = true → S t t')) ∨
    (∀ x ∈ s.head?, P x = false) ∧ ∀ x ∈ s'.head?, P x = false

variable {o : Places} {R S T : Ahead} {P : Char → Bool} {p q : Pattern}

theorem Abreast.mono {a b : Progress} (h : Abreast o R a b) (hRS : ∀ s s', R s s' → S s s') :
    Abreast o S a b := by
  obtain ⟨hafter, hafter', hindices, hahead⟩ := h
  exact .of hafter hafter' hindices (hRS _ _ hahead)

/-- Two searches go on alike with the first of two ways that succeeds. -/
theorem rel_or {α : Type} {Q : α → α → Prop} {a a' b b' : Option α} (ha : Option.Rel Q a a')
    (hb : Option.Rel Q b b') : Option.Rel Q (a.or b) (a'.or b') := by
  cases ha with
  | some h => exact .some h
  | none => exact hb

/-! ## One character -/

/-- The same character is consumed on both sides. -/
theorem Abreast.cons {w s s' : List Char} {x : Char} {gs gs' : List (Nat × Span)}
    (hafter : o.after = w ++ x :: s) (hafter' : o.after' = w ++ x :: s')
    (hindices : gs.map (·.1) = gs'.map (·.1)) (h : S s s') :
    Abreast o S (.at (o.before ++ w ++ [x]) s gs) (.at (o.before' ++ w ++ [x]) s' gs') := by
  rw [List.append_assoc, List.append_assoc]
  exact .of (by simpa using hafter) (by simpa using hafter') hindices h

theorem Offers.carries_consume (h : Offers P R S) : Carries o R S (consume P) := by
  rintro Q _ _ k k' ⟨hafter, hafter', hindices, hahead⟩ hk
  rcases h _ _ hahead with ⟨x, t, t', rfl, rfl, hS⟩ | ⟨hs, hs'⟩
  · rw [consume_at_cons, consume_at_cons]
    split_ifs with hx
    · exact hk _ _ (.cons hafter hafter' hindices (hS hx))
    · exact .none
  · rw [consume_eq_none hs, consume_eq_none hs']
    exact .none

/-! ## Parts of a pattern -/

/-- The texts behind the places are at the same kind of edge. -/
theorem carries_wordEdge (hends : SameEdge o.before o.before')
    (hR : ∀ s s', R s s' → s.head?.elim false isWordChar = s'.head?.elim false isWordChar) :
    Carries o R R wordEdge.run := by
  rintro Q _ _ k k' ⟨hafter, hafter', hindices, hahead⟩ hk
  rename_i w rest rest' gs gs'
  have hedge : (Cursor.between (o.before ++ w) rest).isWordEdge =
      (Cursor.between (o.before' ++ w) rest').isWordEdge := by
    have hsame := hends.append w
    rw [SameEdge] at hsame
    simp only [Cursor.isWordEdge, Cursor.between_previous, Cursor.between_rest, hsame, hR _ _ hahead]
  change Option.Rel Q (check (Cursor.between (o.before ++ w) rest).isWordEdge _ k)
    (check (Cursor.between (o.before' ++ w) rest').isWordEdge _ k')
  rw [hedge, check, check]
  split_ifs
  · exact hk _ _ (.of hafter hafter' hindices hahead)
  · exact .none

theorem Carries.seq (hp : Carries o R S p.run) (hq : Carries o S T q.run) :
    Carries o R T (p ++ q).run := fun Q _ _ _ _ h hk =>
  hp Q _ _ _ _ h fun _ _ h' => hq Q _ _ _ _ h' hk

theorem Carries.alt (hp : Carries o R S p.run) (hq : Carries o R S q.run) :
    Carries o R S (alt p q).run := by
  intro Q a b k k' h hk
  rw [run_alt, run_alt]
  exact rel_or (hp Q _ _ _ _ h hk) (hq Q _ _ _ _ h hk)

theorem Carries.opt (hp : Carries o R S p.run) (hRS : ∀ s s', R s s' → S s s') :
    Carries o R S (opt p).run := by
  intro Q a b k k' h hk
  rw [run_opt, run_opt]
  exact rel_or (hp Q _ _ _ _ h hk) (hk _ _ (h.mono hRS))

/-- A part of a pattern that is never come to. -/
theorem carries_of_unreachable (step : Progress → Continuation → Option Progress) :
    Carries o (fun _ _ => False) S step := by
  rintro Q _ _ k k' ⟨-, -, -, hahead⟩
  exact hahead.elim

theorem Carries.group {index : Nat} (hp : Carries o R S p.run) :
    Carries o R S (group index p).run := by
  intro Q a b k k' h hk
  refine hp Q _ _ _ _ h fun t t' ht => hk _ _ ?_
  obtain ⟨hafter, hafter', hindices, hahead⟩ := ht
  exact .of hafter hafter' (congrArg (index :: ·) hindices) hahead

/-! ## Repetitions of one character -/

theorem Offers.carries_star {items : List ClassItem}
    (h : Offers (fun x => items.any (·.holds x)) R R) : Carries o R R (star (oneOf items)).run := by
  rintro Q _ _ k k' ⟨hafter, hafter', hindices, hahead⟩ hk
  rename_i w rest rest' gs gs'
  induction hn : rest.length using Nat.strong_induction_on generalizing w rest rest' with
  | _ n ih =>
      subst hn
      rw [run_star_oneOf, run_star_oneOf]
      refine rel_or ?_ (hk _ _ (.of hafter hafter' hindices hahead))
      change Option.Rel Q (consume _ _ _) (consume _ _ _)
      rcases h _ _ hahead with ⟨x, t, t', rfl, rfl, hR⟩ | ⟨hs, hs'⟩
      · rw [consume_at_cons, consume_at_cons]
        split_ifs with hx
        · rw [List.append_assoc, List.append_assoc]
          exact ih t.length (Nat.lt_succ_self _) (by simpa using hafter) (by simpa using hafter')
            (hR hx) rfl
        · exact .none
      · rw [consume_eq_none hs, consume_eq_none hs']
        exact .none

theorem Offers.carries_plus {items : List ClassItem}
    (hRS : Offers (fun x => items.any (·.holds x)) R S)
    (hS : Offers (fun x => items.any (·.holds x)) S S) : Carries o R S (plus (oneOf items)).run :=
  fun Q _ _ _ _ h hk => hRS.carries_consume Q _ _ _ _ h fun _ _ h' => hS.carries_star Q _ _ _ _ h' hk

/-! ## Matches -/

/-- Two matches of the same text that remember groups of the same indices. -/
inductive MatchAlike (o : Places) (R : Ahead) : Match → Match → Prop
  | of {w rest rest' : List Char} {gs gs' : List (Nat × Span)} (after : o.after = w ++ rest)
      (after' : o.after' = w ++ rest') (indices : gs.map (·.1) = gs'.map (·.1))
      (ahead : R rest rest') : MatchAlike o R (.of o.before w rest gs) (.of o.before' w rest' gs')

/-- **A pattern matches alike on both sides** if it carries two searches along. -/
theorem Carries.matchAt? (h : Carries o R S p.run) (hR : R o.after o.after') :
    Option.Rel (MatchAlike o S) (p.matchAt? (.between o.before o.after))
      (p.matchAt? (.between o.before' o.after')) := by
  have hstart : Abreast o R (.at o.before o.after []) (.at o.before' o.after' []) := by
    simpa using Abreast.of (o := o) (w := []) rfl rfl (Eq.refl (List.map Prod.fst [])) hR
  have hrun := h (Abreast o S) _ _ some some hstart fun _ _ => .some
  unfold Pattern.matchAt?
  change Option.Rel _ ((p.run (.at o.before o.after []) some).map _)
    ((p.run (.at o.before' o.after' []) some).map _)
  revert hrun
  generalize p.run (.at o.before o.after []) some = r
  generalize p.run (.at o.before' o.after' []) some = r'
  rintro (⟨⟨hafter, hafter', hindices, hahead⟩⟩ | _)
  · refine .some ?_
    have hmatch := MatchAlike.of hafter hafter' hindices hahead
    simpa [Match.of, Progress.at, Cursor.between, hafter, hafter'] using hmatch
  · exact .none

theorem isSome_lookup {α : Type} {i : Nat} {gs : List (Nat × α)} :
    (gs.lookup i).isSome = (gs.map (·.1)).contains i := by
  induction gs with
  | nil => rfl
  | cons g gs ih =>
      obtain ⟨j, x⟩ := g
      rw [List.lookup_cons, List.map_cons, List.contains_cons, ← ih]
      cases i == j <;> rfl

/-- A group takes part in both of two such matches or in none. -/
theorem MatchAlike.isSome_group? {m m' : Match} (h : MatchAlike o R m m') (index : Nat) :
    (m.group? index).isSome = (m'.group? index).isSome := by
  obtain ⟨-, -, hindices, -⟩ := h
  simp only [Match.group?, Match.of_groups, isSome_lookup, hindices]

end GodotLint.Pattern
