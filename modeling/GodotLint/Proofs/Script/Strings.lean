import GodotLint.Proofs.Line.Quoting
import GodotLint.Proofs.Pattern.Occurrences
import GodotLint.Proofs.Pattern.Parts
import GodotLint.Proofs.Text.Lines
import GodotLint.Script.Literal

/-!
# The string literals of a line

A literal of a line starts at a quotation mark outside of other literals and goes on to the next mark of
the same kind that no backslash stands before (`IsLiteralIn`). The reader of strings looks for the shape
of a literal wherever a mark stands, whether or not the line is inside of a literal there. It finds every
literal of the line all the same (`exists_mem_findAll_of_isLiteralIn`): between two literals there is no
mark, as it would open one that is never closed.
-/

namespace GodotLint

open Text

namespace Quoting

/-! ## The inside of a literal -/

/-- The inside of a literal: other characters than its mark, and each backslash with the character behind
it. -/
inductive LiteralBody (mark : Char) : List Char → Prop
  | nil : LiteralBody mark []
  | plain {c : Char} {s : List Char} (ne_mark : c ≠ mark) (ne_slash : c ≠ '\\')
      (rest : LiteralBody mark s) : LiteralBody mark (c :: s)
  | escape {c : Char} {s : List Char} (rest : LiteralBody mark s) : LiteralBody mark ('\\' :: c :: s)

variable {mark : Char} {s a b u v : List Char}

/-- A text without marks and backslashes may stand inside. -/
theorem LiteralBody.of_plain (h : ∀ c ∈ s, c ≠ mark ∧ c ≠ '\\') : LiteralBody mark s := by
  induction s with
  | nil => exact .nil
  | cons c s ih =>
      obtain ⟨⟨hmark, hslash⟩, hs⟩ := List.forall_mem_cons.mp h
      exact .plain hmark hslash (ih hs)

/-- The reader stays inside. -/
theorem LiteralBody.read_eq (h : LiteralBody mark s) : read (.inside mark) s = .inside mark := by
  induction h with
  | nil => rfl
  | plain hmark hslash _ ih =>
      rw [read_cons]
      simpa [next, hmark, hslash] using ih
  | escape _ ih => exact ih

/-- The reader is inside at each place. -/
theorem LiteralBody.isInside (h : LiteralBody mark (u ++ v)) :
    (read (.inside mark) u).isInside = true := by
  generalize hs : u ++ v = s at h
  induction h generalizing u with
  | nil =>
      obtain ⟨rfl, -⟩ := List.append_eq_nil_iff.mp hs
      rfl
  | plain hmark hslash _ ih =>
      rcases List.append_eq_cons_iff.mp hs with ⟨rfl, -⟩ | ⟨u, rfl, rfl⟩
      · rfl
      · rw [read_cons]
        simpa [next, hmark, hslash] using ih rfl
  | @escape c _ _ ih =>
      rcases List.append_eq_cons_iff.mp hs with ⟨rfl, -⟩ | ⟨u, rfl, hu⟩
      · rfl
      · rcases List.append_eq_cons_iff.mp hu.symm with ⟨rfl, -⟩ | ⟨u, rfl, rfl⟩
        · rfl
        · have hinside := @ih u rfl
          exact hinside

/-- A literal does not go on behind its mark. -/
theorem LiteralBody.not_append (hmark : IsMark mark) (ha : LiteralBody mark a) :
    ¬ LiteralBody mark (a ++ mark :: s) := by
  intro h
  have hinside := @LiteralBody.isInside mark (a ++ [mark]) s (by simpa using h)
  rw [read_append, ha.read_eq] at hinside
  simp only [read_cons, read_nil, next, beq_eq_false_iff_ne.mpr hmark.ne_backslash, beq_self_eq_true,
    Bool.false_eq_true, if_false, if_true] at hinside
  cases hinside

/-- A literal ends in one way. -/
theorem LiteralBody.unique (hmark : IsMark mark) (ha : LiteralBody mark a) (hb : LiteralBody mark b)
    (h : a ++ mark :: u = b ++ mark :: v) : a = b := by
  rcases List.append_eq_append_iff.mp h with ⟨s, rfl, hs⟩ | ⟨s, rfl, hs⟩
  · cases s with
    | nil => simp
    | cons c s =>
        obtain rfl : mark = c := (List.cons.inj hs).1
        exact absurd hb (ha.not_append hmark)
  · cases s with
    | nil => simp
    | cons c s =>
        obtain rfl : mark = c := (List.cons.inj hs).1
        exact absurd ha (hb.not_append hmark)

/-- Where the reader gets out of a literal, its inside ends. -/
theorem exists_literalBody : ∀ {s : List Char}, read (.inside mark) s = .outside →
    ∃ body rest, s = body ++ mark :: rest ∧ LiteralBody mark body
  | [], h => by cases h
  | c :: s, h => by
      rw [read_cons] at h
      by_cases hslash : c = '\\'
      · subst hslash
        cases s with
        | nil => cases h
        | cons d s =>
            obtain ⟨body, rest, rfl, hbody⟩ := exists_literalBody (s := s) h
            exact ⟨'\\' :: d :: body, rest, rfl, .escape hbody⟩
      by_cases hmark : c = mark
      · exact ⟨[], s, by rw [hmark]; rfl, .nil⟩
      · have hnext : next (.inside mark) c = .inside mark := by simp [next, hslash, hmark]
        rw [hnext] at h
        obtain ⟨body, rest, rfl, hbody⟩ := exists_literalBody h
        exact ⟨c :: body, rest, rfl, .plain hmark hslash hbody⟩

/-- A reader that has got out of a literal and is outside has passed the whole of the literal. -/
theorem LiteralBody.exists_behind (hmark : IsMark mark) (ha : LiteralBody mark a)
    (hread : read (.inside mark) s = .outside) (h : a ++ mark :: u = s ++ v) :
    ∃ rest, s = a ++ mark :: rest ∧ u = rest ++ v ∧ read .outside rest = .outside := by
  obtain ⟨body, rest, rfl, hbody⟩ := exists_literalBody hread
  rw [List.append_assoc, List.cons_append] at h
  obtain rfl := ha.unique hmark hbody h
  have hout : next (.inside mark) mark = .outside := by
    simp [next, hmark.ne_backslash]
  rw [read_append, ha.read_eq, read_cons, hout] at hread
  exact ⟨rest, rfl, (List.cons.inj (List.append_cancel_left h)).2, hread⟩

end Quoting

namespace Script

open Pattern Quoting

/-! ## The shape of a literal -/

section shape

variable {mark : Char} {pre w post : List Char} {gs : List (Nat × Span)}

/-- What is accepted as the inside of a literal is one. -/
theorem literalBody_of_accepts (h : (literalBody mark).Accepts pre w post gs) :
    LiteralBody mark w ∧ gs = [] := by
  change Repeats _ pre w post gs at h
  induction h with
  | none => exact ⟨.nil, rfl⟩
  | more first _ _ ih =>
      obtain ⟨hrest, rfl⟩ := ih
      rcases accepts_orElse.mp first with hplain | hescape
      · obtain ⟨x, rfl, hx, rfl⟩ := hplain
        have hne : x ≠ mark ∧ x ≠ '\\' := by simpa [ClassItem.holds] using hx
        exact ⟨.plain hne.1 hne.2 hrest, rfl⟩
      · obtain ⟨_, _, _, _, rfl, rfl, ⟨x, rfl, hx, rfl⟩, ⟨c, rfl, -, rfl⟩⟩ := hescape
        rw [beq_iff_eq.mp hx]
        exact ⟨.escape hrest, rfl⟩

/-- The inside of a literal is accepted if it is on one line. -/
theorem accepts_literalBody (h : LiteralBody mark w) (hfeed : '\n' ∉ w) :
    (literalBody mark).Accepts pre w post [] := by
  change Repeats _ pre w post []
  induction h generalizing pre with
  | nil => exact .none pre post
  | @plain c s hmark hslash _ ih =>
      have hfirst : (noneOf [.only mark, .only '\\'] <|> char '\\' ++ any).Accepts pre [c] (s ++ post)
          [] := accepts_orElse.mpr (.inl ⟨c, rfl, by simp [ClassItem.holds, hmark, hslash], rfl⟩)
      have hrest := @ih (pre ++ [c]) fun h => hfeed (List.mem_cons_of_mem c h)
      exact .more hfirst (List.cons_ne_nil c []) hrest
  | @escape c s _ ih =>
      have hc : c ≠ '\n' := fun h => hfeed (by simp [h])
      have hfirst : (noneOf [.only mark, .only '\\'] <|> char '\\' ++ any).Accepts pre ['\\', c]
          (s ++ post) [] :=
        accepts_orElse.mpr (.inr ⟨['\\'], [c], [], [], rfl, rfl, ⟨'\\', rfl, rfl, rfl⟩,
          ⟨c, rfl, by simpa using hc, rfl⟩⟩)
      have hrest := @ih (pre ++ ['\\', c]) fun h => hfeed (by simp [h])
      exact .more hfirst (List.cons_ne_nil _ _) hrest

/-- A literal with a given mark. -/
theorem exists_of_accepts_delimited {index : Nat}
    (h : (char mark ++ group index (literalBody mark) ++ char mark).Accepts pre w post gs) :
    ∃ body, w = mark :: (body ++ [mark]) ∧ LiteralBody mark body ∧
      gs = [(index, ⟨width (pre ++ [mark]), body⟩)] := by
  rw [accepts_append_of_right fun _ _ _ _ => accepts_char] at h
  simp only [accepts_append_of_left fun _ _ _ _ => accepts_char, accepts_group] at h
  obtain ⟨_, _, rfl, ⟨_, body, rfl, rfl, g, haccepts, rfl⟩, rfl⟩ := h
  obtain ⟨hbody, rfl⟩ := literalBody_of_accepts haccepts
  exact ⟨body, rfl, hbody, rfl⟩

theorem starts_delimited {index : Nat} {body rest : List Char} (hbody : LiteralBody mark body)
    (hfeed : '\n' ∉ body) : (char mark ++ group index (literalBody mark) ++ char mark).Starts pre
      (mark :: (body ++ mark :: rest)) := by
  rw [starts_append_assoc, starts_append_of_left fun _ _ _ _ => accepts_char]
  have hinside : (group index (literalBody mark)).Accepts (pre ++ [mark]) body ([mark] ++ rest)
      [(index, ⟨width (pre ++ [mark]), body⟩)] :=
    accepts_group.mpr ⟨[], accepts_literalBody hbody hfeed, rfl⟩
  have hclose : (char mark).Accepts (pre ++ [mark] ++ body) [mark] rest [] :=
    accepts_char.mpr ⟨rfl, rfl⟩
  exact ⟨[mark], body ++ mark :: rest, rfl, rfl, body ++ [mark], rest, _, by simp,
    body, [mark], _, _, rfl, rfl, hinside, hclose⟩

/-- What the reader of strings takes for a literal. -/
theorem exists_of_accepts_stringLiteral (h : stringLiteral.Accepts pre w post gs) :
    ∃ mark body, IsMark mark ∧ w = mark :: (body ++ [mark]) ∧ LiteralBody mark body ∧
      (Match.of pre w post gs).group 1 ++ (Match.of pre w post gs).group 2 = body := by
  rcases accepts_orElse.mp h with h | h
  · obtain ⟨body, rfl, hbody, rfl⟩ := exists_of_accepts_delimited h
    refine ⟨'"', body, .inl rfl, rfl, hbody, ?_⟩
    simp [Match.group, Match.group?, List.lookup]
  · obtain ⟨body, rfl, hbody, rfl⟩ := exists_of_accepts_delimited h
    refine ⟨'\x27', body, .inr rfl, rfl, hbody, ?_⟩
    simp [Match.group, Match.group?, List.lookup]

/-- The reader of strings takes a literal for one. -/
theorem starts_stringLiteral {body rest : List Char} (hmark : IsMark mark)
    (hbody : LiteralBody mark body) (hfeed : '\n' ∉ body) :
    stringLiteral.Starts pre (mark :: (body ++ mark :: rest)) := by
  rcases hmark with rfl | rfl
  · exact starts_alt.mpr (.inl (starts_delimited hbody hfeed))
  · exact starts_alt.mpr (.inr (starts_delimited hbody hfeed))

end shape

/-! ## The literals of a line -/

/-- A text is the inside of a literal of a line. -/
def IsLiteralIn (code value : List Char) : Prop :=
  ∃ before mark after, code = before ++ mark :: (value ++ mark :: after) ∧ IsMark mark ∧
    read .outside before = .outside ∧ LiteralBody mark value

/-- A text has no quotation mark, or a first one. -/
theorem forall_not_mark_or_exists_first (s : List Char) : (∀ c ∈ s, ¬ IsMark c) ∨
    ∃ a mark b, s = a ++ mark :: b ∧ IsMark mark ∧ ∀ c ∈ a, ¬ IsMark c := by
  induction s with
  | nil => exact .inl fun c hc => absurd hc List.not_mem_nil
  | cons c s ih =>
      by_cases hc : IsMark c
      · exact .inr ⟨[], c, s, rfl, hc, fun d hd => absurd hd List.not_mem_nil⟩
      · rcases ih with hall | ⟨a, mark, b, rfl, hmark, ha⟩
        · exact .inl (List.forall_mem_cons.mpr ⟨hc, hall⟩)
        · exact .inr ⟨c :: a, mark, b, rfl, hmark, List.forall_mem_cons.mpr ⟨hc, ha⟩⟩

section sweep

variable {pre post gap u v : List Char} {mark : Char} {value after : List Char} {ms : List Match}

/-- Between literals stands no mark: it would open a literal that ends before the reader is outside again,
and the reader of strings would have met it. -/
theorem not_mark_of_clear (hread : read .outside (gap ++ u) = .outside)
    (hfeed : '\n' ∉ gap ++ u)
    (hclear : ∀ a b, gap = a ++ b → b ≠ [] → ¬ stringLiteral.Starts (pre ++ a) (b ++ (u ++ v))) :
    ∀ c ∈ gap, ¬ IsMark c := by
  rcases forall_not_mark_or_exists_first gap with hall | ⟨a, mark, b, rfl, hmark, ha⟩
  · exact hall
  · exfalso
    have hinside : read (.inside mark) (b ++ u) = .outside := by
      rwa [List.append_assoc, read_append, read_outside ha, List.cons_append, read_cons,
        next_outside_of_mark hmark] at hread
    obtain ⟨body, rest, hbu, hbody⟩ := exists_literalBody hinside
    have hfeed' : '\n' ∉ body := fun h => hfeed (by simp [hbu, h])
    refine hclear a (mark :: b) rfl (List.cons_ne_nil _ _) ?_
    have hpost : mark :: b ++ (u ++ v) = mark :: (body ++ mark :: (rest ++ v)) := by
      rw [List.cons_append, ← List.append_assoc, hbu]
      simp
    rw [hpost]
    exact starts_stringLiteral hmark hbody hfeed'

/-- A sweep that starts outside of literals meets each literal. -/
theorem exists_mem_of_sweep (h : Sweep stringLiteral pre post ms) (hfeed : '\n' ∉ post)
    (hpost : post = u ++ mark :: (value ++ mark :: after)) (hmark : IsMark mark)
    (hread : read .outside u = .outside) (hvalue : LiteralBody mark value) :
    ∃ m ∈ ms, m.group 1 ++ m.group 2 = value := by
  have hstarts : ∀ pre, stringLiteral.Starts pre (mark :: (value ++ mark :: after)) := by
    intro pre
    refine starts_stringLiteral hmark hvalue fun hmem => hfeed ?_
    simp [hpost, hmem]
  induction h generalizing u with
  | done clear => exact absurd (hstarts _) (clear u _ hpost)
  | @next pre gap w rest gs ms clear accepted later ih =>
      obtain ⟨mark', body, hmark', rfl, hbody, hgroups⟩ := exists_of_accepts_stringLiteral accepted
      -- at the same place there is the same literal
      have hsame : mark' :: (body ++ [mark']) ++ rest = mark :: (value ++ mark :: after) →
          ∃ m ∈ Match.of (pre ++ gap) (mark' :: (body ++ [mark'])) rest gs :: ms,
            m.group 1 ++ m.group 2 = value := by
        intro h
        obtain ⟨rfl, h⟩ := List.cons.inj h
        obtain rfl := hbody.unique hmark hvalue (by simpa using h)
        exact ⟨_, List.mem_cons_self, hgroups⟩
      rw [List.append_assoc] at hpost
      rcases List.append_eq_append_iff.mp hpost with ⟨v, rfl, hv⟩ | ⟨v, rfl, hv⟩
      · -- the literal starts behind the gap, in which the reader meets no mark
        have hgap : ∀ c ∈ gap, ¬ IsMark c := by
          refine @not_mark_of_clear pre gap v (mark :: (value ++ mark :: after)) hread
            (fun hmem => hfeed ?_) fun a b hab hb => ?_
          · rw [List.append_assoc, hv, ← List.append_assoc]
            exact List.mem_append_left _ hmem
          · rw [← hv, ← List.append_assoc]
            exact clear a b hab hb
        rw [read_append, read_outside hgap] at hread
        cases v with
        | nil => exact hsame (by simpa using hv)
        | cons c v =>
            obtain ⟨rfl, hv⟩ := List.cons.inj hv
            rw [read_cons, next_outside_of_mark hmark'] at hread
            -- the reader gets out of the literal that was met
            have htext : body ++ mark' :: rest = v ++ mark :: (value ++ mark :: after) := by
              simpa using hv
            obtain ⟨u, rfl, rfl, hread⟩ := hbody.exists_behind hmark' hread htext
            obtain ⟨m, hm, hmvalue⟩ := ih (fun hmem => hfeed (List.mem_append_right _ hmem)) rfl hread
            exact ⟨m, List.mem_cons_of_mem _ hm, hmvalue⟩
      · -- the literal starts in the gap, if not where the match starts
        cases v with
        | nil => exact hsame (by simpa using hv.symm)
        | cons c v =>
            have hmet := hstarts (pre ++ u)
            rw [hv, ← List.append_assoc] at hmet
            exact absurd hmet (clear u (c :: v) rfl (List.cons_ne_nil c v))

end sweep

/-- **Each literal of a line is read.** -/
theorem exists_mem_findAll_of_isLiteralIn {code value : List Char} (hfeed : '\n' ∉ code)
    (h : IsLiteralIn code value) :
    ∃ m ∈ stringLiteral.findAll code, m.group 1 ++ m.group 2 = value := by
  obtain ⟨before, mark, after, hcode, hmark, hread, hvalue⟩ := h
  have hconsuming : stringLiteral.isConsuming = true := by decide
  exact exists_mem_of_sweep (sweep_findAll (consumes_of_isConsuming hconsuming) code) hfeed hcode hmark
    hread hvalue

/-- A line defines a constant, and its literals are left out. -/
def isConstantLine (code : List Char) : Bool := startsWith "const ".toList (trimStart code)

/-- The literals of a script are among its strings, apart from those on lines that define constants. -/
theorem exists_mem_strings_of_isLiteralIn {lines : List (List Char)} {raw value : List Char}
    (hraw : raw ∈ lines) (hfeed : '\n' ∉ raw) (hconstant : isConstantLine (Line.code raw) = false)
    (h : IsLiteralIn (Line.code raw) value) : ∃ l ∈ strings lines, l.value = str value := by
  obtain ⟨line, hline⟩ := exists_mem_zipIdx hraw 1
  obtain ⟨rest, hcode, -⟩ := Line.code_spec raw
  have hfeed' : '\n' ∉ Line.code raw := by
    rw [hcode] at hfeed
    exact fun hmem => hfeed (List.mem_append_left rest hmem)
  obtain ⟨m, hm, hvalue⟩ := exists_mem_findAll_of_isLiteralIn hfeed' h
  refine ⟨⟨str value, line⟩, List.mem_flatMap.mpr ⟨(raw, line), hline, ?_⟩, rfl⟩
  rw [isConstantLine] at hconstant
  simp only [stringsOfLine, hconstant, Bool.false_eq_true, if_false]
  exact List.mem_map.mpr ⟨m, hm, by rw [hvalue]⟩

end Script

end GodotLint
