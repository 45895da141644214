import GodotLint.Proofs.Line.Quoting
import GodotLint.Proofs.Offset.Matches

/-!
# Matches inside and outside of literals

A match is judged by the place where it starts. A reader who takes the first match of a line, or one match
after the other, sees what stands outside of literals (`StandsIn`), unless a match that starts inside of a
literal comes first (`exists_find?_outside_iff`), or reaches across it (`exists_outside_iff`).
-/

namespace GodotLint

open Text

/-- Text without quotation marks changes nothing about being inside of a literal. -/
theorem Quoting.isInside_read_append {a s : List Char} (hs : ∀ c ∈ s, ¬ IsMark c) :
    (read .outside (a ++ s)).isInside = (read .outside a).isInside := by
  rw [Bool.eq_iff_iff, ← not_iff_not, Bool.not_eq_true, Bool.not_eq_true, isInside_eq_false_iff,
    isInside_eq_false_iff]
  refine ⟨eq_outside_of_read hs, fun ha => ?_⟩
  rw [read_append, ha, read_outside hs]

namespace Pattern

variable {p : Pattern} {code : List Char}

/-! ## Groups -/

/-- In a match without quotation marks, what a group holds is inside of a literal exactly if the match
starts there. -/
theorem Occurs.isInsideLiteral_group {m : Match} (h : p.Occurs code m)
    (hquiet : p.avoids '"' = true ∧ p.avoids '\x27' = true) {i : Nat} {g : Span}
    (hg : m.group? i = some g) :
    Line.isInsideLiteral code g.start = Line.isInsideLiteral code m.start := by
  obtain ⟨a, w, b, gs, rfl, hacc, rfl⟩ := h
  obtain ⟨u, v, rfl, hstart⟩ := startsGroups_accepts p _ _ _ _ hacc _ (mem_of_lookup hg)
  have hmark : ∀ c ∈ u, ¬ Quoting.IsMark c := by
    rintro c hc (rfl | rfl)
    · exact not_mem_of_avoids hquiet.1 _ _ _ _ hacc (List.mem_append_left v hc)
    · exact not_mem_of_avoids hquiet.2 _ _ _ _ hacc (List.mem_append_left v hc)
  have hsplit : a ++ (u ++ v) ++ b = a ++ u ++ (v ++ b) := by simp
  have hbefore : a ++ (u ++ v) ++ b = a ++ (u ++ (v ++ b)) := by simp
  simp only at hstart
  rw [hstart, hsplit, Line.isInsideLiteral_append, Quoting.isInside_read_append hmark, ← hsplit,
    hbefore, Match.of_start, Line.isInsideLiteral_append]

/-! ## The first match -/

/-- Some match in a line of code starts outside of literals. -/
def StandsIn (p : Pattern) (code : List Char) : Prop :=
  ∃ m, p.IsMatchIn code m ∧ Line.isInsideLiteral code m.start = false

/-- The first match in a line of code starts inside a literal. -/
def IsHiddenIn (p : Pattern) (code : List Char) : Prop :=
  ∃ m, p.find? code = some m ∧ Line.isInsideLiteral code m.start = true

/-- A match starts outside of literals where the reader is outside and the pattern starts. -/
theorem standsIn_iff : p.StandsIn code ↔ ∃ pre post, code = pre ++ post ∧ p.Starts pre post ∧
    Quoting.read .outside pre = .outside := by
  constructor
  · rintro ⟨m, hm, houtside⟩
    obtain ⟨pre, post, rfl, hstarts, hstart⟩ := hm.exists_starts
    rw [hstart, Line.isInsideLiteral_append, Quoting.isInside_eq_false_iff] at houtside
    exact ⟨pre, post, rfl, hstarts, houtside⟩
  · rintro ⟨pre, post, rfl, hstarts, houtside⟩
    obtain ⟨m, hm, hstart⟩ := exists_isMatchIn hstarts
    refine ⟨m, hm, ?_⟩
    rw [hstart, Line.isInsideLiteral_append, houtside]
    rfl

/-- The first match starts outside of literals if there is such a match at all, and none inside of a
literal comes before it. -/
theorem exists_find?_outside_iff :
    (∃ m, p.find? code = some m ∧ Line.isInsideLiteral code m.start = false) ↔
      p.StandsIn code ∧ ¬ p.IsHiddenIn code := by
  constructor
  · rintro ⟨m, hfind, houtside⟩
    refine ⟨⟨m, (find?_eq_some_iff.mp hfind).1, houtside⟩, ?_⟩
    rintro ⟨n, hfind', hinside⟩
    obtain rfl := Option.some.inj (hfind.symm.trans hfind')
    rw [houtside] at hinside
    cases hinside
  · rintro ⟨⟨n, hn, -⟩, hfirst⟩
    cases hfind : p.find? code with
    | none => exact absurd hn (find?_eq_none_iff.mp hfind n)
    | some m =>
        refine ⟨m, rfl, ?_⟩
        by_contra hinside
        exact hfirst ⟨m, hfind, by simpa using hinside⟩

/-! ## All matches -/

/-- A match that starts inside a literal reaches across the place behind `before`. -/
def IsCoveredIn (p : Pattern) (code before : List Char) : Prop :=
  ∃ m ∈ p.findAll code, Line.isInsideLiteral code m.start = true ∧
    m.start ≤ width before ∧ width before < m.stop

/-- One of the matches starts outside of literals if the pattern starts there at some place, and no match
that starts inside of a literal reaches across it. -/
theorem exists_outside_iff (hp : p.isConsuming = true) :
    (∃ m ∈ p.findAll code, Line.isInsideLiteral code m.start = false) ↔
      ∃ before after, code = before ++ after ∧ p.Starts before after ∧
        Quoting.read .outside before = .outside ∧ ¬ p.IsCoveredIn code before := by
  constructor
  · rintro ⟨m, hm, houtside⟩
    obtain ⟨before, w, rest, gs, rfl, hacc, rfl⟩ := occurs_of_mem_findAll hm
    have hread := houtside
    rw [Match.of_start, List.append_assoc, Line.isInsideLiteral_append,
      Quoting.isInside_eq_false_iff] at hread
    refine ⟨before, w ++ rest, by simp, ⟨w, rest, gs, rfl, hacc⟩, hread, ?_⟩
    -- what reaches across the start of a match is that match
    rintro ⟨n, hn, hinside, hle, hlt⟩
    rcases Nat.lt_or_eq_of_le hle with hbefore | hsame
    · exact absurd (stop_le_start_of_mem hp hn hm hbefore) (Nat.not_le.mpr hlt)
    · rw [hsame] at hinside
      rw [Match.of_start, hinside] at houtside
      cases houtside
  · rintro ⟨before, after, rfl, hstarts, -, hcovered⟩
    obtain ⟨m, hm, hle, hlt⟩ := exists_covers_of_starts hp hstarts
    refine ⟨m, hm, ?_⟩
    by_contra hinside
    exact hcovered ⟨m, hm, by simpa using hinside, hle, hlt⟩

end Pattern

end GodotLint
