import GodotLint.Proofs.Script.Strings

/-!
# Literals as the scanner of a line sees them

The test of places (`Line.isInsideLiteral`) tells a line apart into what is inside of literals and what is
not, and so into the literals that are opened and closed on it (`Line.closedLiterals`). The reader of
strings searches for the shape of a literal instead. Both are at the same place behind each literal that is
closed: a mark before it would open one, and it ends in one way only. So the reader finds these literals
first and in their order, and it finds no other if the line ends outside of literals
(`strings_agreeWithScanner`). Behind a mark that opens a literal which is never closed, the reader goes on
with the next mark.
-/

namespace GodotLint

open Text

namespace Line

/-- The literals that are closed in the rest of a text from a byte offset on, as a test of places tells.
`content` is what was read of the literal that the offset is in. -/
def closedFrom (isInside : Nat → Bool) : (offset : Nat) → (content : List Char) → List Char →
    List (List Char)
  | _, _, [] => []
  | offset, content, c :: rest =>
    let behind := offset + c.utf8Size
    if !isInside offset then closedFrom isInside behind [] rest
    else if isInside behind then closedFrom isInside behind (content ++ [c]) rest
    else content :: closedFrom isInside behind [] rest

/-- The contents of the literals that are opened and closed on a line. -/
def closedLiterals (line : List Char) : List (List Char) :=
  closedFrom (isInsideLiteral line) 0 [] line

end Line

namespace Quoting

/-- The literals that are closed in a text which is read from a state. -/
def closedFrom : Quoting → (content : List Char) → List Char → List (List Char)
  | _, _, [] => []
  | q, content, c :: rest =>
    if !q.isInside then closedFrom (q.next c) [] rest
    else if (q.next c).isInside then closedFrom (q.next c) (content ++ [c]) rest
    else content :: closedFrom (q.next c) [] rest

variable {mark : Char} {content gap s : List Char}

/-- The test of places sees what the reader of quotation marks sees. -/
theorem closedFrom_isInsideLiteral (pre rest content : List Char) :
    Line.closedFrom (Line.isInsideLiteral (pre ++ rest)) (width pre) content rest =
      closedFrom (read .outside pre) content rest := by
  induction rest generalizing pre content with
  | nil => rfl
  | cons c rest ih =>
      have hnext : pre ++ c :: rest = pre ++ [c] ++ rest := by simp
      have hread : read .outside (pre ++ [c]) = (read .outside pre).next c := by simp
      have hwidth : width pre + c.utf8Size = width (pre ++ [c]) := by simp
      have hbehind := Line.isInsideLiteral_append (pre ++ [c]) rest
      rw [← hnext, hread] at hbehind
      have ih := ih (pre ++ [c])
      rw [← hnext, hread] at ih
      simp only [Line.closedFrom, closedFrom, Line.isInsideLiteral_append pre, hwidth, hbehind, ih]

theorem closedLiterals_eq (line : List Char) :
    Line.closedLiterals line = closedFrom .outside [] line :=
  closedFrom_isInsideLiteral [] line []

/-- No literal is closed where no mark opens one. -/
theorem closedFrom_append_of_not_mark (hgap : ∀ c ∈ gap, ¬ IsMark c) (s : List Char) :
    closedFrom .outside [] (gap ++ s) = closedFrom .outside [] s := by
  induction gap with
  | nil => rfl
  | cons c gap ih =>
      obtain ⟨hc, hgap⟩ := List.forall_mem_cons.mp hgap
      rw [List.cons_append, closedFrom, next_outside_of_not_mark hc]
      exact ih hgap

/-- A mark outside of literals opens one. -/
theorem closedFrom_cons_of_mark (hmark : IsMark mark) (s : List Char) :
    closedFrom .outside [] (mark :: s) = closedFrom (.inside mark) [] s := by
  rw [closedFrom, next_outside_of_mark hmark]
  rfl

/-- The mark that opened a literal closes it. -/
theorem next_inside_of_mark (hmark : IsMark mark) : next (.inside mark) mark = .outside := by
  simp [next, hmark.ne_backslash]

/-- A character of a literal is added to what was read of it. -/
theorem closedFrom_inside_cons {c : Char} (hslash : c ≠ '\\') (hmark : c ≠ mark) (s content : List Char) :
    closedFrom (.inside mark) content (c :: s) = closedFrom (.inside mark) (content ++ [c]) s := by
  rw [closedFrom]
  simp [next, hslash, hmark, isInside]

theorem closedFrom_inside_escape (mark c : Char) (s content : List Char) :
    closedFrom (.inside mark) content ('\\' :: c :: s) =
      closedFrom (.inside mark) (content ++ ['\\', c]) s := by
  simp [closedFrom, next, isInside]

/-- The inside of a literal is seen in whole. -/
theorem LiteralBody.closedFrom_eq {body : List Char} (hmark : IsMark mark) (h : LiteralBody mark body)
    (rest content : List Char) : closedFrom (.inside mark) content (body ++ mark :: rest) =
      (content ++ body) :: closedFrom .outside [] rest := by
  induction h generalizing content with
  | nil =>
      rw [List.nil_append, closedFrom, next_inside_of_mark hmark, List.append_nil]
      rfl
  | plain hne hslash _ ih =>
      rw [List.cons_append, closedFrom_inside_cons hslash hne, ih]
      simp
  | escape _ ih =>
      rw [List.cons_append, List.cons_append, closedFrom_inside_escape, ih]
      simp

/-- A literal that was opened is closed, or it goes on to the end. -/
theorem exists_literalBody_or_open (mark : Char) : ∀ s content : List Char,
    (∃ body rest, s = body ++ mark :: rest ∧ LiteralBody mark body) ∨
      closedFrom (.inside mark) content s = [] ∧ read (.inside mark) s ≠ .outside
  | [], content => .inr ⟨rfl, by simp⟩
  | c :: s, content => by
      by_cases hslash : c = '\\'
      · subst hslash
        cases s with
        | nil => exact .inr ⟨rfl, by simp [next]⟩
        | cons d s =>
            rw [closedFrom_inside_escape]
            rcases exists_literalBody_or_open mark s (content ++ ['\\', d]) with
              ⟨body, rest, rfl, hbody⟩ | hopen
            · exact .inl ⟨'\\' :: d :: body, rest, rfl, .escape hbody⟩
            · exact .inr hopen
      by_cases hmark : c = mark
      · exact .inl ⟨[], s, by rw [hmark]; rfl, .nil⟩
      · have hnext : next (.inside mark) c = .inside mark := by simp [next, hslash, hmark]
        rw [closedFrom_inside_cons hslash hmark, read_cons, hnext]
        rcases exists_literalBody_or_open mark s (content ++ [c]) with ⟨body, rest, rfl, hbody⟩ | hopen
        · exact .inl ⟨c :: body, rest, rfl, .plain hmark hslash hbody⟩
        · exact .inr hopen

end Quoting

namespace Script

open Pattern Quoting

variable {pre post gap s : List Char} {mark : Char} {ms : List Match}

/-- Where no literal starts at the first mark, none is closed, and the text does not end outside. -/
theorem closedFrom_of_not_starts (hgap : ∀ c ∈ gap, ¬ IsMark c) (hmark : IsMark mark) (hfeed : '\n' ∉ s)
    (hstarts : ¬ stringLiteral.Starts pre (mark :: s)) :
    closedFrom .outside [] (gap ++ mark :: s) = [] ∧ read .outside (gap ++ mark :: s) ≠ .outside := by
  rw [closedFrom_append_of_not_mark hgap, closedFrom_cons_of_mark hmark, read_append, read_outside hgap,
    read_cons, next_outside_of_mark hmark]
  rcases exists_literalBody_or_open mark s [] with ⟨body, rest, rfl, hbody⟩ | hopen
  · exact absurd (starts_stringLiteral hmark hbody fun h => hfeed (by simp [h])) hstarts
  · exact hopen

/-- The value of a literal that was found. -/
def valueOf (m : Match) : List Char := m.group 1 ++ m.group 2

/-- The values that are found begin with the literals that are closed, and there are no other values if the
text ends outside of literals. -/
def Agree (closed values : List (List Char)) (last : Quoting) : Prop :=
  closed <+: values ∧ (last = .outside → closed = values)

/-- A sweep that starts outside of literals finds the literals that are closed, in their order, by induction
over the sweep. -/
theorem agree_of_sweep (h : Sweep stringLiteral pre post ms) (hfeed : '\n' ∉ post) :
    Agree (closedFrom .outside [] post) (ms.map valueOf) (read .outside post) := by
  -- behind a mark that opens a literal for good, anything may be found
  have hopen : ∀ {closed values last}, closed = [] ∧ last ≠ .outside → Agree closed values last := by
    rintro _ values last ⟨rfl, hlast⟩
    exact ⟨List.nil_prefix, fun h => absurd h hlast⟩
  induction h with
  | @done pre post clear =>
      rcases forall_not_mark_or_exists_first post with hplain | ⟨gap, mark, rest, rfl, hmark, hgap⟩
      · have hnone := closedFrom_append_of_not_mark hplain []
        rw [List.append_nil] at hnone
        rw [hnone]
        exact ⟨List.nil_prefix, fun _ => rfl⟩
      · exact hopen (closedFrom_of_not_starts hgap hmark (fun h => hfeed (by simp [h])) (clear gap _ rfl))
  | @next pre gap w rest gs ms clear accepted later ih =>
      obtain ⟨mark, body, hmark, rfl, hbody, hvalue⟩ := exists_of_accepts_stringLiteral accepted
      rcases forall_not_mark_or_exists_first gap with hgap | ⟨a, mark', b, rfl, hmark', ha⟩
      · obtain ⟨hbegin, hall⟩ := ih fun h => hfeed (List.mem_append_right _ h)
        have hclosed : closedFrom .outside [] (gap ++ mark :: (body ++ [mark]) ++ rest) =
            body :: closedFrom .outside [] rest := by
          have hbehind := hbody.closedFrom_eq hmark rest []
          rw [List.append_assoc, closedFrom_append_of_not_mark hgap, List.cons_append,
            closedFrom_cons_of_mark hmark]
          simpa using hbehind
        have hread : read .outside (gap ++ mark :: (body ++ [mark]) ++ rest) = read .outside rest := by
          rw [read_append, read_append, read_outside hgap, read_cons, next_outside_of_mark hmark,
            read_append, hbody.read_eq, read_cons, next_inside_of_mark hmark, read_nil]
        rw [hclosed, hread, List.map_cons, valueOf, hvalue]
        exact ⟨List.cons_prefix_cons.mpr ⟨rfl, hbegin⟩, fun h => by rw [hall h]⟩
      · have hnot := clear a (mark' :: b) rfl (List.cons_ne_nil _ _)
        rw [List.append_assoc, List.append_assoc] at hfeed ⊢
        exact hopen (closedFrom_of_not_starts ha hmark' (fun h => hfeed (by simp_all)) (by simpa using hnot))

/-! ## The strings of one line -/

theorem line_of_mem_stringsOfLine {raw : List Char} {line : Nat} {l : StringLiteral}
    (h : l ∈ stringsOfLine raw line) : l.line = line := by
  rw [stringsOfLine] at h
  split_ifs at h
  · cases h
  · obtain ⟨m, -, rfl⟩ := List.mem_map.mp h
    rfl

/-- The strings on a line are those that are read from the line. -/
theorem filter_strings_eq {lines : List (List Char)} {raw : List Char} {first line : Nat}
    (hraw : (raw, line) ∈ lines.zipIdx first) :
    ((lines.zipIdx first).flatMap fun (raw, line) => stringsOfLine raw line).filter (·.line = line) =
      stringsOfLine raw line := by
  induction lines generalizing first with
  | nil => cases hraw
  | cons head lines ih =>
      rw [List.zipIdx_cons, List.flatMap_cons, List.filter_append]
      rw [List.zipIdx_cons] at hraw
      rcases List.mem_cons.mp hraw with heq | hraw
      · obtain ⟨rfl, rfl⟩ := Prod.mk.inj heq
        -- the lines below have other numbers
        have hbelow : ((lines.zipIdx (line + 1)).flatMap fun (raw, line) => stringsOfLine raw line).filter
            (·.line = line) = [] := by
          refine List.filter_eq_nil_iff.mpr fun l hl => ?_
          obtain ⟨⟨raw', n⟩, hn, hl⟩ := List.mem_flatMap.mp hl
          have hline : l.line = n := line_of_mem_stringsOfLine hl
          have hle := (List.mem_zipIdx hn).1
          simp only [decide_eq_true_eq]
          omega
        rw [hbelow, List.append_nil]
        exact List.filter_eq_self.mpr fun l hl => by simpa using line_of_mem_stringsOfLine hl
      · have hle := (List.mem_zipIdx hraw).1
        have hhead : (stringsOfLine head first).filter (·.line = line) = [] := by
          refine List.filter_eq_nil_iff.mpr fun l hl => ?_
          have hline := line_of_mem_stringsOfLine hl
          simp only [decide_eq_true_eq]
          omega
        rw [ih hraw]
        simp only [hhead, List.nil_append]

/-- The values that are read on a line. -/
def valuesOn (line : Nat) (literals : List StringLiteral) : List String :=
  (literals.filter (·.line = line)).map (·.value)

/-- **The strings of a line begin with the literals that are opened and closed on it**, in their order, and
there are no others if the line ends outside of literals. Lines that define a constant are left out, however
they are indented. -/
theorem strings_agreeWithScanner {lines : List (List Char)} {raw : List Char} {line : Nat}
    (hraw : (raw, line) ∈ lines.zipIdx 1) (hfeed : '\n' ∉ raw)
    (hconstant : isConstantLine (Line.code raw) = false) :
    (Line.closedLiterals (Line.code raw)).map str <+: valuesOn line (strings lines) ∧
    (Line.isInsideLiteral (Line.code raw) (width (Line.code raw)) = false →
      (Line.closedLiterals (Line.code raw)).map str = valuesOn line (strings lines)) := by
  obtain ⟨rest, hcode, -⟩ := Line.code_spec raw
  have hfeed' : '\n' ∉ Line.code raw := by
    rw [hcode] at hfeed
    exact fun h => hfeed (List.mem_append_left rest h)
  have hconsuming : stringLiteral.isConsuming = true := by decide
  obtain ⟨hbegin, hall⟩ :=
    agree_of_sweep (sweep_findAll (consumes_of_isConsuming hconsuming) (Line.code raw)) hfeed'
  have hvalues : valuesOn line (strings lines) =
      ((stringLiteral.findAll (Line.code raw)).map valueOf).map str := by
    rw [isConstantLine] at hconstant
    rw [valuesOn, strings, filter_strings_eq hraw, stringsOfLine]
    simp only [hconstant, Bool.false_eq_true, if_false, List.map_map]
    rfl
  have hend := Line.isInsideLiteral_append (Line.code raw) []
  rw [List.append_nil] at hend
  rw [hvalues, closedLiterals_eq, hend, isInside_eq_false_iff]
  exact ⟨hbegin.map str, fun h => by rw [hall h]⟩

theorem strings_agreeWithScanner_quarrel :
    let raw := "say(\"it's\", 'a \\' b') # \"c\"".toList
    (raw, 1) ∈ [raw].zipIdx 1 ∧ '\n' ∉ raw ∧ isConstantLine (Line.code raw) = false ∧
    Line.isInsideLiteral (Line.code raw) (width (Line.code raw)) = false ∧
    Line.closedLiterals (Line.code raw) = ["it's".toList, "a \\' b".toList] ∧
    valuesOn 1 (strings [raw]) = ["it's", "a \\' b"] := by
  intro raw
  have hraw : (raw, 1) ∈ [raw].zipIdx 1 := List.mem_singleton.mpr rfl
  have hfeed : '\n' ∉ raw := by decide
  have hconstant : isConstantLine (Line.code raw) = false := by decide
  have hend : Line.isInsideLiteral (Line.code raw) (width (Line.code raw)) = false := by decide
  have hclosed : Line.closedLiterals (Line.code raw) = ["it's".toList, "a \\' b".toList] := by decide
  refine ⟨hraw, hfeed, hconstant, hend, hclosed, ?_⟩
  rw [← (strings_agreeWithScanner hraw hfeed hconstant).2 hend, hclosed]
  decide

/-- A constant inside of a function is left out too, though its line starts with a blank. -/
theorem not_forall_strings_agreeWithScanner :
    ¬ ∀ (lines : List (List Char)) (raw : List Char) (line : Nat),
      (raw, line) ∈ lines.zipIdx 1 → '\n' ∉ raw → startsWith "const ".toList (Line.code raw) = false →
      (Line.closedLiterals (Line.code raw)).map str <+: valuesOn line (strings lines) := by
  intro h
  let raw := "\tconst A = \"x\"".toList
  have hprefix := h [raw] raw 1 (List.mem_singleton.mpr rfl) (by decide) (by decide)
  -- the scanner sees a literal closed, and no string is read
  have hclosed : Line.closedLiterals (Line.code raw) = ["x".toList] := by decide
  have hvalues : valuesOn 1 (strings [raw]) = [] := by decide
  rw [hclosed, hvalues, List.prefix_nil] at hprefix
  exact absurd hprefix (List.cons_ne_nil _ _)

end Script

end GodotLint
