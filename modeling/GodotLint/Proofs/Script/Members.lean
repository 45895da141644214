import GodotLint.Index.Basic
import GodotLint.Proofs.Line.Words
import GodotLint.Proofs.Naming.Styles
import GodotLint.Proofs.Pattern.Literals

/-!
# Members of names

Code names a member where a name stands alone with a point and an identifier behind it. What stands in
masked code stands outside of literals in the code itself (`exists_of_maskFrom_eq_append`), and no match
of the shape for qualified members can begin in front of the name and reach into it, since the character
there is neither of an identifier nor a point. So the members that the scanner reads leave out no name
that starts with a capital (`exists_mem_membersIn`), and all names that do not
(`isCapitalised_of_mem_membersIn`).
-/

namespace GodotLint

open Text

/-! ## Text that masking keeps -/

namespace Quoting

/-- Only a quotation mark leads out of a literal. -/
theorem eq_outside_of_next {p : List Char} {c : Char} (hc : ¬ IsMark c)
    (h : ((read .outside p).next c).isInside = false) : read .outside p = .outside := by
  rw [isInside_eq_false_iff] at h
  exact eq_outside_of_read (s := [c]) (by simpa using hc) (by simpa using h)

end Quoting

namespace Line

variable {a b p s w : List Char} {c : Char}

/-- A character that masking keeps, other than a mark or a blank, stands outside of literals. -/
theorem exists_of_maskFrom_eq_append (hmark : ¬ Quoting.IsMark c) (hblank : c ≠ ' ')
    (h : maskFrom (Quoting.read .outside p) s = a ++ c :: b) :
    ∃ a' b', s = a' ++ c :: b' ∧ Quoting.read .outside (p ++ a') = .outside ∧
      maskFrom (Quoting.read .outside p) a' = a ∧ maskFrom .outside b' = b := by
  induction s generalizing p a with
  | nil => simp [maskFrom] at h
  | cons d s ih =>
      have hread : Quoting.read .outside (p ++ [d]) = (Quoting.read .outside p).next d := by simp
      rw [maskFrom, ← hread] at h
      by_cases hinside : ((Quoting.read .outside p).isInside &&
          (Quoting.read .outside (p ++ [d])).isInside) = true
      · -- the character is blanked, so the kept one is further on
        rw [if_pos hinside] at h
        obtain ⟨a', rfl, hrest⟩ : ∃ a', a = List.replicate d.utf8Size ' ' ++ a' ∧
            maskFrom (Quoting.read .outside (p ++ [d])) s = a' ++ c :: b := by
          rcases List.append_eq_append_iff.mp h with ⟨a', ha, hs⟩ | ⟨u, hu, hs⟩
          · exact ⟨a', ha, hs⟩
          · cases u with
            | nil => exact ⟨[], by simpa using hu.symm, by simpa using hs.symm⟩
            | cons e u =>
                obtain ⟨rfl, -⟩ := List.cons.inj hs
                have hc : c ∈ List.replicate d.utf8Size ' ' := by simp [hu]
                exact absurd (List.eq_of_mem_replicate hc) hblank
        obtain ⟨u, v, rfl, houtside, rfl, hv⟩ := ih hrest
        refine ⟨d :: u, v, rfl, by simpa using houtside, ?_, hv⟩
        rw [maskFrom, ← hread, if_pos hinside]
      · rw [if_neg hinside, List.singleton_append] at h
        rcases List.cons_eq_append_iff.mp h with ⟨rfl, hc⟩ | ⟨a', rfl, hrest⟩
        · obtain ⟨rfl, rfl⟩ := List.cons.inj hc
          have houtside : Quoting.read .outside p = .outside := by
            rw [Bool.and_eq_true, not_and, Bool.not_eq_true] at hinside
            by_cases hq : (Quoting.read .outside p).isInside = true
            · exact Quoting.eq_outside_of_next hmark (hread ▸ hinside hq)
            · rwa [Bool.not_eq_true, Quoting.isInside_eq_false_iff] at hq
          refine ⟨[], s, rfl, by simpa using houtside, rfl, ?_⟩
          rw [hread, houtside, Quoting.next_outside_of_not_mark hmark]
        · obtain ⟨u, v, rfl, houtside, rfl, hv⟩ := ih hrest
          refine ⟨d :: u, v, rfl, by simpa using houtside, ?_, hv⟩
          rw [maskFrom, ← hread, if_neg hinside, List.singleton_append]

/-- Text without quotation marks that masked code starts with stands in the code too. -/
theorem exists_eq_append_of_maskFrom (hw : ∀ c ∈ w, ¬ Quoting.IsMark c)
    (h : maskFrom .outside s = w ++ b) : ∃ s', s = w ++ s' ∧ maskFrom .outside s' = b := by
  induction w generalizing s with
  | nil => exact ⟨s, rfl, h⟩
  | cons c w ih =>
      cases s with
      | nil => simp [maskFrom] at h
      | cons d s =>
          rw [maskFrom] at h
          obtain ⟨rfl, hrest⟩ := List.cons.inj h
          have hnext := Quoting.next_outside_of_not_mark (hw d (by simp))
          rw [List.append_eq, List.nil_append, hnext] at hrest
          obtain ⟨s', rfl, hs⟩ := ih (fun e he => hw e (by simp [he])) hrest
          exact ⟨s', rfl, hs⟩

/-- Outside of literals the last character read is kept. -/
theorem getLast?_maskFrom (h : Quoting.read .outside p = .outside) :
    (maskFrom .outside p).getLast? = p.getLast? := by
  rcases List.eq_nil_or_concat p with rfl | ⟨u, x, rfl⟩
  · rfl
  · rw [List.concat_eq_append] at h ⊢
    have hnext : (Quoting.read .outside u).next x = .outside := by simpa using h
    rw [maskFrom_append, maskFrom, hnext]
    simp [Quoting.isInside, maskFrom]

/-! ## Names with members -/

/-- A text names a member of `name`: the name stands alone, not behind a point, with a point and an
identifier behind it. -/
def NamesMember (text : List Char) (name : String) : Prop :=
  ∃ a member b, text = a ++ name.toList ++ '.' :: (member ++ b) ∧ isIdent member = true ∧
    Pattern.EndsOutsideWord a ∧ a.getLast? ≠ some '.'

variable {code : List Char} {name : String}

/-- A member that masked code names is named in the code, outside of literals. -/
theorem NamesMember.exists_outside (h : NamesMember (mask code) name)
    (hname : isIdent name.toList = true) : ∃ a member b,
      code = a ++ name.toList ++ '.' :: (member ++ b) ∧ isIdent member = true ∧
      Pattern.EndsOutsideWord a ∧ a.getLast? ≠ some '.' ∧ Quoting.read .outside a = .outside := by
  obtain ⟨a, member, b, hmask, hmember, hedge, hpoint⟩ := h
  have hident := isIdentChar_of_isIdent hname
  obtain ⟨c, w, hcw⟩ := List.exists_cons_of_ne_nil (ne_nil_of_isIdent hname)
  have hc : isIdentChar c = true := hident c (by simp [hcw])
  rw [hcw, List.append_assoc, List.cons_append] at hmask
  have hblank : c ≠ ' ' := by
    rintro rfl
    exact absurd hc (by decide)
  obtain ⟨a', b', rfl, houtside, ha, hb⟩ := exists_of_maskFrom_eq_append (p := [])
    (Quoting.not_isMark_of_isIdentChar hc) hblank hmask
  -- what follows the first character of the name holds no marks either
  have hplain : ∀ d ∈ w ++ '.' :: member, ¬ Quoting.IsMark d := by
    intro d hd
    rcases List.mem_append.mp hd with hd | hd
    · exact Quoting.not_isMark_of_isIdentChar (hident d (by simp [hcw, hd]))
    · rcases List.mem_cons.mp hd with rfl | hd
      · rintro (hd | hd) <;> exact absurd hd (by decide)
      · exact Quoting.not_isMark_of_isIdentChar (isIdentChar_of_isIdent hmember d hd)
  obtain ⟨s', rfl, -⟩ := exists_eq_append_of_maskFrom (b := b) hplain (by simpa using hb)
  have hlast : a'.getLast? = a.getLast? := by
    rw [← ha]
    exact (getLast?_maskFrom (by simpa using houtside)).symm
  refine ⟨a', member, s', by simp [hcw], hmember, ?_, by rwa [hlast], by simpa using houtside⟩
  rwa [Pattern.EndsOutsideWord, hlast]

end Line

/-! ## Qualified members -/

/-- The name starts with a capital of ASCII. -/
def IsCapitalised (name : String) : Prop := ∃ c ∈ name.toList.head?, isAsciiUpper c = true

instance (name : String) : Decidable (IsCapitalised name) :=
  decidable_of_iff (name.toList.head?.any isAsciiUpper = true) (by
    rw [Option.any_eq_true, IsCapitalised]
    simp only [Option.mem_def])

namespace Mention

open Pattern

variable {pre w post : List Char} {gs : List (Nat × Span)} {code : List Char} {name : String}

/-- A capital and characters of an identifier. -/
def IsClassName (w : List Char) : Prop :=
  ∃ c u, w = c :: u ∧ isAsciiUpper c = true ∧ ∀ x ∈ u, isIdentChar x = true

theorem IsClassName.isIdentChar (h : IsClassName w) : ∀ c ∈ w, Text.isIdentChar c = true := by
  obtain ⟨c, u, rfl, hc, hu⟩ := h
  rintro d (_ | ⟨_, hd⟩)
  · simp [Text.isIdentChar, isAsciiAlnum, isAsciiLetter, hc]
  · exact hu d hd

/-- An identifier with a capital in front is the name of a class. -/
theorem isClassName_of_isIdent (h : isIdent name.toList = true) (hcap : IsCapitalised name) :
    IsClassName name.toList := by
  obtain ⟨c, u, hcu⟩ := List.exists_cons_of_ne_nil (ne_nil_of_isIdent h)
  obtain ⟨d, hd, hupper⟩ := hcap
  obtain rfl : c = d := by simpa [hcu] using hd
  exact ⟨c, u, hcu, hupper, fun x hx => isIdentChar_of_isIdent h x (by simp [hcu, hx])⟩

theorem accepts_className : className.Accepts pre w post gs ↔ IsClassName w ∧ gs = [] := by
  rw [className, accepts_append_of_left fun _ _ _ _ => accepts_oneOf]
  simp only [accepts_star fun _ _ _ _ => accepts_identPart]
  constructor
  · rintro ⟨_, u, rfl, ⟨c, rfl, hc⟩, hu, rfl⟩
    exact ⟨⟨c, u, rfl, by simpa [ClassItem.holds, isAsciiUpper] using hc, hu⟩, rfl⟩
  · rintro ⟨⟨c, u, rfl, hc, hu⟩, rfl⟩
    exact ⟨[c], u, rfl, ⟨c, rfl, by simpa [ClassItem.holds, isAsciiUpper] using hc⟩, hu, rfl⟩

/-- A qualified member is a class, a point and an identifier, from the edge of a word on. -/
theorem accepts_qualified : qualified.Accepts pre w post gs ↔
    ((Cursor.between pre (w ++ post)).isWordEdge = true ∧
      ∃ u v, w = u ++ '.' :: v ∧ IsClassName u ∧ isIdent v = true) ∧ gs = [] := by
  have hassoc : qualified.Accepts pre w post gs ↔
      (wordEdge ++ (className ++ (char '.' ++ ident))).Accepts pre w post gs := by
    rw [qualified, accepts_append_assoc, accepts_append_assoc]
  rw [hassoc, accepts_wordEdge_append, and_assoc, accepts_append_of_left fun _ _ _ _ => accepts_className]
  refine and_congr_right fun _ => ?_
  simp only [accepts_append_of_left fun _ _ _ _ => accepts_char, accepts_ident]
  constructor
  · rintro ⟨u, _, rfl, hu, _, v, rfl, rfl, hv, rfl⟩
    exact ⟨⟨u, v, rfl, hu, hv⟩, rfl⟩
  · rintro ⟨⟨u, v, rfl, hu, hv⟩, rfl⟩
    exact ⟨u, _, rfl, hu, ['.'], v, rfl, rfl, hv, rfl⟩

/-- No point stands in the name of a class. -/
theorem IsClassName.point_not_mem (h : IsClassName w) : '.' ∉ w := by
  intro hmem
  exact absurd (h.isIdentChar '.' hmem) (by decide)

/-- What stands before the first point. -/
theorem qualifier_ofList {u v : List Char} (hu : '.' ∉ u) :
    Index.qualifier (String.ofList (u ++ '.' :: v)) = String.ofList u := by
  have hkeep : ∀ c ∈ u, (!(c == '.')) = true := by
    intro c hc
    rw [Bool.not_eq_true', beq_eq_false_iff_ne]
    rintro rfl
    exact hu hc
  rw [Index.qualifier, before, String.toList_ofList, List.takeWhile_append_of_pos hkeep]
  simp

/-- The members that a line of code uses are those of names that start with a capital. -/
theorem isCapitalised_of_mem_membersIn {target : String} (h : target ∈ membersIn code) :
    IsCapitalised (Index.qualifier target) := by
  obtain ⟨m, hm, htarget⟩ := List.mem_filterMap.mp h
  split_ifs at htarget
  obtain ⟨a, w, b, gs, -, hacc, rfl⟩ := occurs_of_mem_findAll hm
  obtain ⟨⟨-, u, v, rfl, hu, -⟩, -⟩ := accepts_qualified.mp hacc
  rw [Option.some.injEq] at htarget
  subst htarget
  rw [Match.of_whole, Span.text, qualifier_ofList hu.point_not_mem]
  obtain ⟨c, u, rfl, hc, -⟩ := hu
  exact ⟨c, by simp, hc⟩

/-- A match that covers a place behind which a name may start on its own starts at this place: in front
of it there is nothing that the match could reach across. -/
theorem eq_of_covers {a b : List Char} (hacc : qualified.Accepts pre w post gs)
    (hcode : pre ++ (w ++ post) = a ++ b) (hle : width pre ≤ width a)
    (hlt : width a < width (pre ++ w)) (hedge : EndsOutsideWord a) (hpoint : a.getLast? ≠ some '.') :
    a = pre := by
  obtain ⟨⟨-, u, v, rfl, hu, hv⟩, -⟩ := accepts_qualified.mp hacc
  obtain ⟨gap, rfl⟩ := prefix_of_width_le hcode hle
  rw [List.append_assoc pre, List.append_cancel_left_eq] at hcode
  rcases List.eq_nil_or_concat gap with rfl | ⟨gap, x, rfl⟩
  · rw [List.append_nil]
  · rw [List.concat_eq_append] at hcode hlt hedge hpoint
    have hwidth : width (gap ++ [x]) ≤ width (u ++ '.' :: v) := by
      simp only [width_append] at hlt ⊢
      omega
    obtain ⟨rest, hrest⟩ := prefix_of_width_le hcode.symm hwidth
    have hx : x ∈ u ++ '.' :: v := by simp [← hrest]
    have hlast : (pre ++ (gap ++ [x])).getLast? = some x := by simp
    have hchar : isIdentChar x = true ∨ x = '.' := by
      rcases List.mem_append.mp hx with hx | hx
      · exact .inl (hu.isIdentChar x hx)
      · rcases List.mem_cons.mp hx with hx | hx
        · exact .inr hx
        · exact .inl (isIdentChar_of_isIdent hv x hx)
    rcases hchar with hchar | rfl
    · have hword := hedge x hlast
      rw [isWordChar_of_isIdentChar hchar] at hword
      cases hword
    · exact absurd hlast hpoint

/-- **No name with a capital is overlooked**: a line of code uses some member of each such name that its
masked code names. -/
theorem exists_mem_membersIn (hname : isIdent name.toList = true) (hcap : IsCapitalised name)
    (h : Line.NamesMember (Line.mask code) name) :
    ∃ target ∈ membersIn code, Index.qualifier target = name := by
  obtain ⟨a, member, b, rfl, hmember, hedge, hpoint, houtside⟩ := h.exists_outside hname
  have hclass := isClassName_of_isIdent hname hcap
  rw [List.append_assoc]
  have hstarts : qualified.Starts a (name.toList ++ '.' :: (member ++ b)) := by
    refine ⟨name.toList ++ '.' :: member, b, [], by simp, ?_⟩
    refine accepts_qualified.mpr ⟨⟨?_, _, _, rfl, hclass, hmember⟩, rfl⟩
    obtain ⟨c, u, hcu, -, -⟩ := hclass
    rw [hcu, List.append_assoc, List.cons_append, isWordEdge_between_cons]
    · exact hedge
    · exact isWordChar_of_isIdentChar (isIdentChar_of_isIdent hname c (by simp [hcu]))
  obtain ⟨m, hm, hle, hlt⟩ := exists_covers_of_starts (by decide) hstarts
  obtain ⟨pre, w, post, gs, hcode, hacc, rfl⟩ := occurs_of_mem_findAll hm
  rw [List.append_assoc] at hcode
  obtain rfl := eq_of_covers hacc hcode.symm hle hlt hedge hpoint
  obtain ⟨⟨-, u, v, rfl, hu, -⟩, -⟩ := accepts_qualified.mp hacc
  -- both have their first point at the same place
  rw [List.append_cancel_left_eq, List.append_assoc, List.cons_append] at hcode
  have hsame := congrArg (fun s => Index.qualifier (String.ofList s)) hcode
  simp only [qualifier_ofList hclass.point_not_mem, qualifier_ofList hu.point_not_mem,
    String.ofList_toList] at hsame
  refine ⟨_, List.mem_filterMap.mpr ⟨_, hm, if_neg ?_⟩, ?_⟩
  · rw [Match.of_start, Line.isInsideLiteral_append, houtside]
    decide
  · rw [Match.of_whole, Span.text, qualifier_ofList hu.point_not_mem, hsame]

end Mention

end GodotLint
