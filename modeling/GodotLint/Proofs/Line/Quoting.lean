import GodotLint.Line.Basic
import GodotLint.Proofs.Text.Bytes

/-!
# Reading the quoting of a line

The state of the reader after a text is `Quoting.read`, the fold of `Quoting.next`. The place test
asks for the state after the text before a place (`isInsideLiteral_append`), and the code of a line
is the longest beginning of it in which no comment mark is met outside of literals
(`code_append_of`, `code_spec`). A quoted text without backslashes, read from outside, is one
literal (`read_literal`). What may stand where is said by `Everywhere`, which a text satisfies
piece by piece.
-/

namespace GodotLint

open Text

namespace Quoting

/-- The state after reading a text. -/
def read (q : Quoting) (s : List Char) : Quoting := s.foldl next q

@[simp] theorem read_nil (q : Quoting) : q.read [] = q := rfl

@[simp] theorem read_cons (q : Quoting) (c : Char) (s : List Char) :
    q.read (c :: s) = (q.next c).read s := rfl

@[simp] theorem read_append (q : Quoting) (a b : List Char) :
    q.read (a ++ b) = (q.read a).read b := List.foldl_append

theorem isInside_eq_false_iff {q : Quoting} : q.isInside = false ↔ q = .outside := by
  cases q <;> simp [isInside]

/-- A quotation mark. -/
def IsMark (c : Char) : Prop := c = '"' ∨ c = '\x27'

theorem next_outside_of_not_mark {c : Char} (h : ¬ IsMark c) : next .outside c = .outside := by
  simp only [IsMark, not_or] at h
  simp [next, h]

theorem next_outside_of_mark {c : Char} (h : IsMark c) : next .outside c = .inside c := by
  rcases h with rfl | rfl <;> rfl

/-- Text without quotation marks stays outside of literals. -/
theorem read_outside {s : List Char} (h : ∀ c ∈ s, ¬ IsMark c) :
    read .outside s = .outside := by
  induction s with
  | nil => rfl
  | cons c s ih =>
      rw [read_cons, next_outside_of_not_mark (h c (by simp))]
      exact ih fun d hd => h d (by simp [hd])

/-- Text without its mark and without backslashes stays inside a literal. -/
theorem read_inside {mark : Char} {s : List Char} (h : ∀ c ∈ s, c ≠ mark ∧ c ≠ '\\') :
    read (.inside mark) s = .inside mark := by
  induction s with
  | nil => rfl
  | cons c s ih =>
      obtain ⟨hmark, hslash⟩ := h c (by simp)
      have hnext : next (.inside mark) c = .inside mark := by simp [next, hmark, hslash]
      rw [read_cons, hnext]
      exact ih fun d hd => h d (by simp [hd])

/-- No quotation mark is a backslash. -/
theorem IsMark.ne_backslash {c : Char} (h : IsMark c) : c ≠ '\\' := by
  rcases h with rfl | rfl <;> decide

/-- No quotation mark is blank. -/
theorem IsMark.not_blank {c : Char} (h : IsMark c) : isBlank c = false := by
  rcases h with rfl | rfl <;> decide

/-- No character of an identifier is a quotation mark. -/
theorem not_isMark_of_isIdentChar {c : Char} (h : isIdentChar c = true) : ¬ IsMark c := by
  rintro (rfl | rfl) <;> exact absurd h (by decide)

/-- A literal without backslashes leads back outside. -/
theorem read_literal {mark : Char} {s : List Char} (hmark : IsMark mark)
    (h : ∀ c ∈ s, c ≠ mark ∧ c ≠ '\\') :
    read .outside (mark :: (s ++ [mark])) = .outside := by
  rw [read_cons, next_outside_of_mark hmark, read_append, read_inside h]
  simp [next, hmark.ne_backslash]

/-- The mark of a literal that was read is a quotation mark. -/
theorem isMark_of_read {s : List Char} {mark : Char}
    (h : read .outside s = .inside mark ∨ read .outside s = .escaped mark) : IsMark mark := by
  induction s using List.reverseRecOn generalizing mark with
  | nil => simp at h
  | append_singleton s c ih =>
      rw [read_append, read_cons, read_nil] at h
      cases hq : read .outside s with
      | outside =>
          rw [hq, next] at h
          split_ifs at h with hc
          · simp only [Quoting.inside.injEq, or_false] at h
            subst h
            simpa [IsMark] using hc
          · simp at h
      | inside m =>
          have hm := ih (.inl hq)
          rw [hq, next] at h
          split_ifs at h <;> simp_all
      | escaped m =>
          have hm := ih (.inr hq)
          rw [hq, next] at h
          simp_all

/-- Text without quotation marks does not lead out of a literal. -/
theorem eq_outside_of_read {p s : List Char} (hs : ∀ c ∈ s, ¬ IsMark c)
    (h : read .outside (p ++ s) = .outside) : read .outside p = .outside := by
  induction s using List.reverseRecOn with
  | nil => simpa using h
  | append_singleton s c ih =>
      have hc : ¬ IsMark c := hs c (by simp)
      refine ih (fun d hd => hs d (by simp [hd])) ?_
      rw [← List.append_assoc, read_append, read_cons, read_nil] at h
      cases hq : read .outside (p ++ s) with
      | outside => rfl
      | inside m =>
          rw [hq, next] at h
          split_ifs at h with hslash hmark
          rw [beq_iff_eq] at hmark
          exact absurd (hmark ▸ isMark_of_read (.inl hq)) hc
      | escaped m =>
          rw [hq, next] at h
          cases h

end Quoting

namespace Line

theorem quotingAt_append (q : Quoting) (a b : List Char) :
    quotingAt q (a ++ b) (width a) = q.read a := by
  induction a generalizing q with
  | nil => cases b <;> simp [quotingAt]
  | cons c a ih =>
      have := c.utf8Size_pos
      simp only [List.cons_append, width_cons, quotingAt]
      rw [if_neg (by omega), Nat.add_sub_cancel_left, ih, Quoting.read_cons]

/-- A place lies inside a literal exactly when the reader is inside one after the text before it. -/
theorem isInsideLiteral_append (a b : List Char) :
    isInsideLiteral (a ++ b) (width a) = (Quoting.read .outside a).isInside := by
  rw [isInsideLiteral, quotingAt_append]

/-! ## What stands where -/

/-- Every character of a text, read from state `q`, stands where `P` allows it. -/
def Everywhere (P : Quoting → Char → Prop) (q : Quoting) (s : List Char) : Prop :=
  ∀ u c v, s = u ++ c :: v → P (q.read u) c

section everywhere

variable {P : Quoting → Char → Prop} {q : Quoting} {a b s : List Char}

theorem Everywhere.nil : Everywhere P q [] := by
  intro u c v h
  simp at h

theorem everywhere_cons {c : Char} :
    Everywhere P q (c :: s) ↔ P q c ∧ Everywhere P (q.next c) s := by
  constructor
  · intro h
    refine ⟨h [] c s rfl, fun u d v huv => ?_⟩
    exact h (c :: u) d v (by simp [huv])
  · rintro ⟨hc, hs⟩ u d v huv
    rcases List.cons_eq_append_iff.mp huv with ⟨rfl, hv⟩ | ⟨u, rfl, rfl⟩
    · cases hv
      exact hc
    · exact hs u d v rfl

theorem everywhere_append :
    Everywhere P q (a ++ b) ↔ Everywhere P q a ∧ Everywhere P (q.read a) b := by
  induction a generalizing q with
  | nil => simp [Everywhere.nil]
  | cons c a ih => simp only [List.cons_append, everywhere_cons, ih, Quoting.read_cons, and_assoc]

/-- What is allowed outside of literals is allowed of text without quotation marks. -/
theorem everywhere_outside (h : ∀ c ∈ s, ¬ Quoting.IsMark c) (hP : ∀ c ∈ s, P .outside c) :
    Everywhere P .outside s := by
  rintro u c v rfl
  rw [Quoting.read_outside fun d hd => h d (by simp [hd])]
  exact hP c (by simp)

/-- What is allowed inside of literals is allowed of the contents of one. -/
theorem everywhere_inside {mark : Char} (h : ∀ c ∈ s, c ≠ mark ∧ c ≠ '\\')
    (hP : ∀ c ∈ s, P (.inside mark) c) : Everywhere P (.inside mark) s := by
  rintro u c v rfl
  rw [Quoting.read_inside fun d hd => h d (by simp [hd])]
  exact hP c (by simp)

/-- Whether every character stands where it may can be told by reading the text once. -/
instance decidableEverywhere [∀ q c, Decidable (P q c)] :
    (q : Quoting) → (s : List Char) → Decidable (Everywhere P q s)
  | _, [] => isTrue .nil
  | q, c :: s =>
    have := decidableEverywhere (q.next c) s
    decidable_of_iff (P q c ∧ Everywhere P (q.next c) s) everywhere_cons.symm

end everywhere

/-- Every occurrence of a character stands outside of literals. -/
def Bare (b : Char) (s : List Char) : Prop :=
  Everywhere (fun q c => c = b → q = .outside) .outside s

instance (b : Char) (s : List Char) : Decidable (Bare b s) :=
  inferInstanceAs (Decidable (Everywhere _ _ _))

/-! ## The code of a line -/

/-- Read from state `q`, the text has no comment mark outside of literals. -/
def Unmarked (q : Quoting) (s : List Char) : Prop :=
  Everywhere (fun q c => ¬ (q = .outside ∧ c = '#')) q s

/-- What follows the code of a line: nothing, or a comment mark that is met outside of literals. -/
def Closes (q : Quoting) (rest : List Char) : Prop :=
  rest = [] ∨ q = .outside ∧ ∃ s, rest = '#' :: s

/-- The line is cut at its first comment mark outside of literals. -/
theorem cutComment_append {q : Quoting} {a rest : List Char} (ha : Unmarked q a)
    (hrest : Closes (q.read a) rest) : cutComment q (a ++ rest) = (a, rest.tail?) := by
  induction a generalizing q with
  | nil =>
      rcases hrest with rfl | ⟨hq, s, rfl⟩
      · cases q <;> rfl
      · simp only [Quoting.read_nil] at hq
        subst hq
        rfl
  | cons c a ih =>
      obtain ⟨hc, ha⟩ := everywhere_cons.mp ha
      have := ih ha hrest
      rw [List.cons_append, cutComment]
      · simp [this]
      · rintro rfl rfl
        exact hc ⟨rfl, rfl⟩

/-- The code of a line is what stands before its first comment mark outside of literals. -/
theorem code_append_of {a rest : List Char} (ha : Unmarked .outside a)
    (hrest : Closes (Quoting.read .outside a) rest) : code (a ++ rest) = a :=
  congrArg Prod.fst (cutComment_append ha hrest)

theorem exists_cutComment (q : Quoting) (line : List Char) :
    ∃ a rest, line = a ++ rest ∧ Unmarked q a ∧ Closes (q.read a) rest := by
  induction line generalizing q with
  | nil => exact ⟨[], [], rfl, .nil, .inl rfl⟩
  | cons c line ih =>
      by_cases hc : q = .outside ∧ c = '#'
      · obtain ⟨rfl, rfl⟩ := hc
        exact ⟨[], '#' :: line, rfl, .nil, .inr ⟨rfl, line, rfl⟩⟩
      · obtain ⟨a, rest, rfl, ha, hrest⟩ := ih (q.next c)
        exact ⟨c :: a, rest, rfl, everywhere_cons.mpr ⟨hc, ha⟩, hrest⟩

/-- Text without comment marks outside of literals belongs to the code. -/
theorem exists_code_append {a : List Char} (ha : Unmarked .outside a) (rest : List Char) :
    ∃ r, code (a ++ rest) = a ++ r := by
  obtain ⟨r, comment, rfl, hr, hcomment⟩ := exists_cutComment (Quoting.read .outside a) rest
  refine ⟨r, ?_⟩
  rw [← List.append_assoc]
  refine code_append_of (everywhere_append.mpr ⟨ha, hr⟩) ?_
  rwa [Quoting.read_append]

/-- The code of a line and what follows it. -/
theorem code_spec (line : List Char) : ∃ rest, line = code line ++ rest ∧
    Unmarked .outside (code line) ∧ Closes (Quoting.read .outside (code line)) rest := by
  obtain ⟨a, rest, rfl, ha, hrest⟩ := exists_cutComment .outside line
  rw [code_append_of ha hrest]
  exact ⟨rest, rfl, ha, hrest⟩

/-- The code of a line has no comment. -/
theorem code_code (line : List Char) : code (code line) = code line := by
  obtain ⟨-, -, ha, -⟩ := code_spec line
  have hnone : Closes (Quoting.read .outside (code line)) [] := .inl rfl
  simpa using code_append_of ha hnone

end Line

end GodotLint
