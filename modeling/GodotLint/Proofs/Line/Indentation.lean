import GodotLint.Proofs.Line.Words
import GodotLint.Proofs.Pattern.Entering
import GodotLint.Text.CaseMap

/-!
# Indentations of the same depth

An indentation is a text of spaces and tabs, and its depth is `Line.indent`, where a tab counts for four
spaces. A text behind an indentation is read as it is without one: it is quoted in the same way, its code
is the code of the text behind the same indentation, and what is trimmed of it is the same. So two lines
that differ in the indentation only, and not in its depth (`Line.Reindented`), go on together through
everything that is read from one line. A line and the same line with its tabs replaced by spaces are such
lines (`Line.reindented_untab`).
-/

namespace GodotLint

open Text

/-- The end of a text that is not blank is trimmed without regard to what stands before it. -/
theorem Text.trimEnd_append (a : List Char) {s : List Char} (hs : isAllBlank s = false) :
    trimEnd (a ++ s) = a ++ trimEnd s := by
  have hstop : (s.reverse.dropWhile isBlank).isEmpty = false := by
    rw [List.isEmpty_eq_false_iff, Ne, List.dropWhile_eq_nil_iff]
    intro hall
    have hblank : isAllBlank s = true :=
      List.all_eq_true.mpr fun c hc => hall c (List.mem_reverse.mpr hc)
    rw [hs] at hblank
    cases hblank
  unfold trimEnd dropEndWhile
  rw [List.reverse_append, List.dropWhile_append, hstop, if_neg Bool.false_ne_true,
    List.reverse_append, List.reverse_reverse]

theorem Text.trimEnd_of_isAllBlank {s : List Char} (hs : isAllBlank s = true) : trimEnd s = [] := by
  have hall : s.reverse.dropWhile isBlank = [] :=
    List.dropWhile_eq_nil_iff.mpr fun c hc => List.all_eq_true.mp hs c (List.mem_reverse.mp hc)
  rw [trimEnd, dropEndWhile, hall, List.reverse_nil]

/-- A text of spaces and tabs. -/
def IsIndentation (a : List Char) : Prop := ∀ c ∈ a, c = ' ' ∨ c = '\t'

/-- Two indentations of the same depth. -/
structure SameIndent (a a' : List Char) : Prop where
  left : IsIndentation a
  right : IsIndentation a'
  indent_eq : Line.indent a = Line.indent a'

namespace IsIndentation

variable {a : List Char} {c : Char}

theorem of_cons (h : IsIndentation (c :: a)) : (c = ' ' ∨ c = '\t') ∧ IsIndentation a :=
  ⟨h c List.mem_cons_self, fun d hd => h d (List.mem_cons_of_mem c hd)⟩

theorem reverse (h : IsIndentation a) : IsIndentation a.reverse :=
  fun c hc => h c (List.mem_reverse.mp hc)

/-- What holds of a space and of a tab holds of every character of an indentation. -/
theorem forall_mem {P : Char → Prop} (h : IsIndentation a) (hspace : P ' ') (htab : P '\t') :
    ∀ c ∈ a, P c := by
  intro c hc
  rcases h c hc with rfl | rfl
  · exact hspace
  · exact htab

theorem isBlank (h : IsIndentation a) : ∀ c ∈ a, isBlank c = true :=
  h.forall_mem (by decide) (by decide)

theorem not_isMark (h : IsIndentation a) : ∀ c ∈ a, ¬ Quoting.IsMark c := by
  unfold Quoting.IsMark
  exact h.forall_mem (by decide) (by decide)

/-- The depth of an indentation is that of its parts. -/
theorem indent_append (h : IsIndentation a) (s : List Char) :
    Line.indent (a ++ s) = Line.indent a + Line.indent s := by
  induction a with
  | nil => exact (Nat.zero_add _).symm
  | cons c a ih =>
      obtain ⟨hc, ha⟩ := h.of_cons
      have hrest := ih ha
      rcases hc with rfl | rfl <;> simp only [List.cons_append, Line.indent, hrest] <;> omega

/-- Only the empty indentation has no depth. -/
theorem indent_eq_zero_iff (h : IsIndentation a) : Line.indent a = 0 ↔ a = [] := by
  cases a with
  | nil => exact ⟨fun _ => rfl, fun _ => rfl⟩
  | cons c a =>
      obtain ⟨hc, -⟩ := h.of_cons
      rcases hc with rfl | rfl <;> simp [Line.indent, Line.tabWidth]

/-- The place behind an indentation is at the edge of a word only if one starts there. -/
theorem getLast?_elim (h : IsIndentation a) : a.getLast?.elim false isWordChar = false := by
  cases hlast : a.getLast? with
  | none => rfl
  | some c =>
      have hplain := h.forall_mem (P := fun c => isWordChar c = false) (by decide) (by decide)
      exact hplain c (List.mem_of_getLast? hlast)

/-! ### Texts behind an indentation -/

variable (h : IsIndentation a) (s : List Char)
include h

theorem cutComment_append : Line.cutComment .outside (a ++ s) =
    (a ++ (Line.cutComment .outside s).1, (Line.cutComment .outside s).2) := by
  induction a with
  | nil => rfl
  | cons c a ih =>
      obtain ⟨hc, ha⟩ := h.of_cons
      have hnext : Quoting.next .outside c = .outside :=
        Quoting.next_outside_of_not_mark (h.not_isMark c List.mem_cons_self)
      rw [List.cons_append, Line.cutComment, hnext, ih ha]
      · rfl
      · rintro - rfl
        exact absurd hc (by decide)

theorem code_append : Line.code (a ++ s) = a ++ Line.code s := by
  rw [Line.code, h.cutComment_append, Line.code]

theorem comment?_append : Line.comment? (a ++ s) = Line.comment? s := by
  rw [Line.comment?, h.cutComment_append, Line.comment?]

theorem mask_append : Line.mask (a ++ s) = a ++ Line.mask s := by
  unfold Line.mask
  rw [Line.maskFrom_append, Line.maskFrom_outside h.not_isMark, Quoting.read_outside h.not_isMark]

theorem isAllBlank_append : isAllBlank (a ++ s) = isAllBlank s := by
  have ha : a.all Text.isBlank = true := List.all_eq_true.mpr h.isBlank
  rw [isAllBlank, List.all_append, ha, Bool.true_and, isAllBlank]

theorem trimStart_append : trimStart (a ++ s) = trimStart s := by
  unfold trimStart
  rw [List.dropWhile_append_of_pos h.isBlank]

theorem trim_append : trim (a ++ s) = trim s := by
  rw [trim, h.trimStart_append, trim]

/-- What is inside of literals stays so, as far behind the indentation. -/
theorem isInsideLiteral_append (n : Nat) :
    Line.isInsideLiteral (a ++ s) (width a + n) = Line.isInsideLiteral s n := by
  unfold Line.isInsideLiteral
  induction a with
  | nil => simp
  | cons c a ih =>
      obtain ⟨-, ha⟩ := h.of_cons
      have hpos := c.utf8Size_pos
      have hnext : Quoting.next .outside c = .outside :=
        Quoting.next_outside_of_not_mark (h.not_isMark c List.mem_cons_self)
      rw [List.cons_append, Line.quotingAt, if_neg (by rw [width_cons]; omega), hnext, ← ih ha]
      congr 2
      rw [width_cons]
      omega

/-- A text that starts with neither a space nor a tab occurs behind the indentation only. -/
theorem contains_append {w : List Char} (hw : w.head?.any (fun c => c != ' ' && c != '\t') = true) :
    contains w (a ++ s) = contains w s := by
  cases w with
  | nil => cases hw
  | cons d w =>
      have hd : d ≠ ' ' ∧ d ≠ '\t' := by simpa using hw
      induction a with
      | nil => rfl
      | cons c a ih =>
          obtain ⟨hc, ha⟩ := h.of_cons
          have hne : (d == c) = false := by
            rcases hc with rfl | rfl
            · exact beq_false_of_ne hd.1
            · exact beq_false_of_ne hd.2
          rw [List.cons_append, contains, startsWith, List.isPrefixOf, hne, Bool.false_and,
            Bool.false_or, ih ha]

/-- So does a character that is neither. -/
theorem contains_char_append {d : Char} (hd : (d != ' ' && d != '\t') = true) :
    (a ++ s).contains d = s.contains d := by
  have hd : d ≠ ' ' ∧ d ≠ '\t' := by simpa using hd
  have hmem : d ∉ a := fun hmem => (h d hmem).elim hd.1 hd.2
  simp [hmem]

/-- The pieces between separators that are neither are the same, the first behind the indentation. -/
theorem splitAt_append {d : Char} (hd : (d != ' ' && d != '\t') = true) :
    ∃ piece pieces, splitAt d s = piece :: pieces ∧ splitAt d (a ++ s) = (a ++ piece) :: pieces := by
  have hd : d ≠ ' ' ∧ d ≠ '\t' := by simpa using hd
  unfold splitAt
  induction a with
  | nil =>
      obtain ⟨piece, pieces, hpieces⟩ := List.exists_cons_of_ne_nil (splitWhere_ne_nil (· == d) s)
      exact ⟨piece, pieces, hpieces, hpieces⟩
  | cons c a ih =>
      obtain ⟨hc, ha⟩ := h.of_cons
      obtain ⟨piece, pieces, hs, has⟩ := ih ha
      have hne : (c == d) = false := by
        rcases hc with rfl | rfl
        · exact beq_false_of_ne hd.1.symm
        · exact beq_false_of_ne hd.2.symm
      refine ⟨piece, pieces, hs, ?_⟩
      rw [List.cons_append, splitWhere, hne, if_neg Bool.false_ne_true, has]
      rfl

theorem before_append {p : Char → Bool} (hspace : p ' ' = false) (htab : p '\t' = false) :
    before p (a ++ s) = a ++ before p s := by
  have ha := h.forall_mem (P := fun c => (!p c) = true) (by rw [hspace]; rfl) (by rw [htab]; rfl)
  unfold before
  rw [List.takeWhile_append_of_pos ha]

end IsIndentation

/-! ## Case -/

namespace Text

/-- An indentation before a word does not count for the case of its characters. -/
theorem nearestIsCased_append {a : List Char} (h : IsIndentation a) (passed : List Char) :
    nearestIsCased (passed ++ a) = nearestIsCased passed := by
  unfold nearestIsCased
  rw [List.dropWhile_append]
  cases hrest : passed.dropWhile isCaseIgnorable with
  | cons c rest => rfl
  | nil =>
      cases a with
      | nil => rfl
      | cons c a =>
          obtain ⟨hc, -⟩ := h.of_cons
          rcases hc with rfl | rfl <;> rfl

theorem lowerFrom_append {a : List Char} (h : IsIndentation a) (passed s : List Char) :
    lowerFrom (passed ++ a) s = lowerFrom passed s := by
  induction s generalizing passed with
  | nil => rfl
  | cons c s ih =>
      rw [lowerFrom, lowerFrom, nearestIsCased_append h, ← List.cons_append, ih]

/-- The lower case of a text behind an indentation. -/
theorem lower_append {a : List Char} (h : IsIndentation a) (s : List Char) :
    lower (a ++ s) = a ++ lower s := by
  have hfrom : ∀ passed, IsIndentation passed → lowerFrom passed (a ++ s) = a ++ lower s := by
    induction a with
    | nil => exact fun passed hpassed => lowerFrom_append hpassed [] s
    | cons c a ih =>
        intro passed hpassed
        obtain ⟨hc, ha⟩ := h.of_cons
        have hlater : IsIndentation (c :: passed) := by
          rintro d (_ | ⟨_, hd⟩)
          · exact hc
          · exact hpassed d hd
        rw [List.cons_append, lowerFrom, ih ha _ hlater]
        rcases hc with rfl | rfl <;> rfl
  exact hfrom [] fun c hc => nomatch hc

end Text

/-! ## Lines of the same depth -/

namespace SameIndent

variable {a a' : List Char}

theorem alike (h : SameIndent a a') : Pattern.AlikeBehind a a' where
  edge := by rw [Pattern.SameEdge, h.left.getLast?_elim, h.right.getLast?_elim]
  nil_iff := by rw [← h.left.indent_eq_zero_iff, h.indent_eq, h.right.indent_eq_zero_iff]

/-- A text that starts with neither a space nor a tab occurs on both sides or on none. -/
theorem contains_eq (h : SameIndent a a') (s : List Char) {w : List Char}
    (hw : w.head?.any (fun c => c != ' ' && c != '\t') = true) :
    contains w (a ++ s) = contains w (a' ++ s) := by
  rw [h.left.contains_append s hw, h.right.contains_append s hw]

theorem contains_char_eq (h : SameIndent a a') (s : List Char) {d : Char}
    (hd : (d != ' ' && d != '\t') = true) : (a ++ s).contains d = (a' ++ s).contains d := by
  rw [h.left.contains_char_append s hd, h.right.contains_char_append s hd]

theorem nil : SameIndent [] [] := ⟨fun _ h => (nomatch h), fun _ h => (nomatch h), rfl⟩

theorem append {b b' : List Char} (h : SameIndent a a') (hb : SameIndent b b') :
    SameIndent (a ++ b) (a' ++ b') where
  left := fun c hc => (List.mem_append.mp hc).elim (h.left c) (hb.left c)
  right := fun c hc => (List.mem_append.mp hc).elim (h.right c) (hb.right c)
  indent_eq := by
    rw [h.left.indent_append, h.right.indent_append, h.indent_eq, hb.indent_eq]

end SameIndent

namespace Line

/-- Two lines that differ in their indentation only, and not in its depth. -/
inductive Reindented : List Char → List Char → Prop
  | of {a a' : List Char} (same : SameIndent a a') (s : List Char) : Reindented (a ++ s) (a' ++ s)

/-- A line with every tab of its indentation replaced by four spaces. -/
def untab : List Char → List Char
  | ' ' :: rest => ' ' :: untab rest
  | '\t' :: rest => ' ' :: ' ' :: ' ' :: ' ' :: untab rest
  | line => line

/-- More indentation of the same depth before such lines. -/
theorem Reindented.append {b b' line line' : List Char} (hb : SameIndent b b')
    (h : Reindented line line') : Reindented (b ++ line) (b' ++ line') := by
  obtain ⟨h, s⟩ := h
  rw [← List.append_assoc, ← List.append_assoc]
  exact .of (hb.append h) s

/-- A tab further to the right stays. -/
example : untab ['\t', ' ', 'a', '\t'] = [' ', ' ', ' ', ' ', ' ', 'a', '\t'] := rfl

theorem reindented_untab (line : List Char) : Reindented line (untab line) := by
  have hspace : SameIndent [' '] [' '] := ⟨by simp [IsIndentation], by simp [IsIndentation], rfl⟩
  have htab : SameIndent ['\t'] [' ', ' ', ' ', ' '] :=
    ⟨by simp [IsIndentation], by simp [IsIndentation], rfl⟩
  fun_induction untab line with
  | case1 rest ih => exact ih.append hspace
  | case2 rest ih => exact ih.append htab
  | case3 line => exact .of .nil line

/-- Replacing tabs makes no line shorter. -/
theorem width_le_width_untab (line : List Char) : width line ≤ width (untab line) := by
  fun_induction untab line with
  | case1 rest ih => exact Nat.add_le_add_left ih _
  | case2 rest ih =>
      have hspace : ' '.utf8Size = 1 := by decide
      have htab : '\t'.utf8Size = 1 := by decide
      simp only [width_cons, hspace, htab]
      omega
  | case3 line => exact Nat.le_refl _

namespace Reindented

variable {line line' : List Char}

theorem refl (line : List Char) : Reindented line line := .of .nil line

theorem exists_append (h : Reindented line line') :
    ∃ a a' s, SameIndent a a' ∧ line = a ++ s ∧ line' = a' ++ s := by
  obtain ⟨h, s⟩ := h
  exact ⟨_, _, s, h, rfl, rfl⟩

theorem code (h : Reindented line line') : Reindented (Line.code line) (Line.code line') := by
  obtain ⟨h, s⟩ := h
  rw [h.left.code_append, h.right.code_append]
  exact .of h _

theorem comment?_eq (h : Reindented line line') : comment? line = comment? line' := by
  obtain ⟨h, s⟩ := h
  rw [h.left.comment?_append, h.right.comment?_append]

theorem isAllBlank_eq (h : Reindented line line') : isAllBlank line = isAllBlank line' := by
  obtain ⟨h, s⟩ := h
  rw [h.left.isAllBlank_append, h.right.isAllBlank_append]

theorem isBlankOrComment_eq (h : Reindented line line') :
    isBlankOrComment line = isBlankOrComment line' := h.code.isAllBlank_eq

theorem trim_eq (h : Reindented line line') : trim line = trim line' := by
  obtain ⟨h, s⟩ := h
  rw [h.left.trim_append, h.right.trim_append]

theorem trimEnd (h : Reindented line line') (hline : isAllBlank line = false) :
    Reindented (trimEnd line) (trimEnd line') := by
  obtain ⟨h, s⟩ := h
  have hs : isAllBlank s = false := by rwa [h.left.isAllBlank_append] at hline
  rw [trimEnd_append _ hs, trimEnd_append _ hs]
  exact .of h _

theorem indent_eq (h : Reindented line line') : indent line = indent line' := by
  obtain ⟨h, s⟩ := h
  rw [h.left.indent_append, h.right.indent_append, h.indent_eq]

end Reindented

end Line

/-! ## Patterns behind an indentation -/

namespace Pattern

/-- The pattern accepts nothing before a space and nothing before a tab. -/
def IsShy (p : Pattern) : Prop := p.front ' ' = .nothing ∧ p.front '\t' = .nothing

instance (p : Pattern) : Decidable p.IsShy := inferInstanceAs (Decidable (_ ∧ _))

/-- The pattern is anchored, and runs through the blanks at the start by the part `g`. -/
def EntersBy (p g : Pattern) : Prop :=
  p.first = .atStart ∧ p.later.first = g ∧ p.later.later.IsShy ∧ p.isAnchored = true

instance (p g : Pattern) : Decidable (p.EntersBy g) := inferInstanceAs (Decidable (_ ∧ _))

/-- The pattern asks for the start, or for a character of a class that has the space and the tab. -/
def AsksForEdge (p : Pattern) (items : List ClassItem) : Prop :=
  p.first = edge items ∧ p.later.IsShy ∧ items.any (·.holds ' ') = true ∧
    items.any (·.holds '\t') = true

instance (p : Pattern) (items : List ClassItem) : Decidable (p.AsksForEdge items) :=
  inferInstanceAs (Decidable (_ ∧ _))

variable {a a' : List Char} {p : Pattern} {items : List ClassItem}

theorem IsShy.front (hp : p.IsShy) (ha : IsIndentation a) : ∀ x ∈ a, p.front x = .nothing :=
  ha.forall_mem hp.1 hp.2

/-- The group that may hold the indentation has the same depth on both sides. -/
theorem MatchBehind.indent_group {is : List Nat} {m m' : Match} (hm : MatchBehind a a' is m m')
    (h : SameIndent a a') (index : Nat) :
    Line.indent (m.group index) = Line.indent (m'.group index) := by
  rcases hm.group_of_mem index with hgroup | ⟨w, hgroup, hgroup'⟩
  · rw [hgroup]
  · rw [hgroup, hgroup', h.left.indent_append, h.right.indent_append, h.indent_eq]

end Pattern

namespace SameIndent

open Pattern

variable {a a' : List Char} {p : Pattern} {items : List ClassItem}

/-- A piece is inside of a literal on both sides or on none. -/
theorem isInsideLiteral (h : SameIndent a a') {g g' : Span} (hg : SameSpan a a' g g') (s : List Char) :
    Line.isInsideLiteral (a ++ s) g.start = Line.isInsideLiteral (a' ++ s) g'.start := by
  obtain ⟨n, hn, hn'⟩ := hg.start
  rw [hn, hn', h.left.isInsideLiteral_append, h.right.isInsideLiteral_append]

theorem isInsideLiteral_start (h : SameIndent a a') {m m' : Match} (hm : SameMatch a a' m m')
    (s : List Char) :
    Line.isInsideLiteral (a ++ s) m.start = Line.isInsideLiteral (a' ++ s) m'.start :=
  h.isInsideLiteral hm.whole s

/-- A shy pattern has the same matches behind both indentations. -/
theorem findAll (h : SameIndent a a') (hp : p.isConsuming = true ∧ p.IsShy) (s : List Char) :
    List.Forall₂ (SameMatch a a') (p.findAll (a ++ s)) (p.findAll (a' ++ s)) :=
  forall₂_findAll_of_front h.alike hp.1 (hp.2.front h.left) (hp.2.front h.right) s

theorem find? (h : SameIndent a a') (hp : p.IsShy) (s : List Char) :
    Option.Rel (SameMatch a a') (p.find? (a ++ s)) (p.find? (a' ++ s)) :=
  rel_find?_of_front h.alike (hp.front h.left) (hp.front h.right) s

/-- A pattern that enters by the indentation has the same match but for what it remembers of it. -/
theorem find?_of_enters {g : Pattern} {is : List Nat} (h : SameIndent a a') (hp : p.EntersBy g)
    {s : List Char} (henters : Enters a a' s is g) :
    Option.Rel (MatchBehind a a' is) (p.find? (a ++ s)) (p.find? (a' ++ s)) := by
  obtain ⟨hstart, hg, hshy, hanchored⟩ := hp
  exact rel_find?_of_enters h.alike hstart hg henters (hshy.front h.left) (hshy.front h.right) hanchored

theorem enters_blanks (h : SameIndent a a') {s : List Char} {is : List Nat} :
    Enters a a' s is blanks :=
  Pattern.enters_blanks h.alike h.left.isBlank h.right.isBlank

/-- A pattern that remembers the blanks at the start has the same match but for these. -/
theorem find?_group (h : SameIndent a a') (hp : p.EntersBy (group 1 blanks)) (s : List Char) :
    Option.Rel (MatchBehind a a' [1]) (p.find? (a ++ s)) (p.find? (a' ++ s)) :=
  h.find?_of_enters hp (h.enters_blanks.group List.mem_cons_self)

/-- One that only skips them has the same match. -/
theorem find?_blanks (h : SameIndent a a') (hp : p.EntersBy blanks) (s : List Char) :
    Option.Rel (MatchBehind a a' []) (p.find? (a ++ s)) (p.find? (a' ++ s)) :=
  h.find?_of_enters hp h.enters_blanks

/-- So has one that asks for the start or for a blank. -/
theorem find?_edge (h : SameIndent a a') (hp : p.AsksForEdge items) (s : List Char) :
    Option.Rel (MatchBehind a a' []) (p.find? (a ++ s)) (p.find? (a' ++ s)) := by
  obtain ⟨hedge, hshy, hspace, htab⟩ := hp
  exact rel_find?_of_edge h.alike hedge (h.left.forall_mem hspace htab) (h.right.forall_mem hspace htab)
    (hshy.front h.left) (hshy.front h.right) s

theorem findAll_edge (h : SameIndent a a') (hconsuming : p.isConsuming = true)
    (hp : p.AsksForEdge items) (s : List Char) :
    List.Forall₂ (MatchBehind a a' []) (p.findAll (a ++ s)) (p.findAll (a' ++ s)) :=
  forall₂_findAll h.alike (consumes_of_isConsuming hconsuming) (fun _ _ => SameMatch.toMatchBehind)
    (fun _ _ hm => hm.after) (h.find?_edge hp s)

end SameIndent

end GodotLint
