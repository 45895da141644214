import GodotLint.Proofs.Line.Words
import GodotLint.Proofs.Pattern.Parts
import GodotLint.Proofs.Pattern.Scan
import GodotLint.Proofs.Text.Bytes
import GodotLint.Script.Preload

/-!
# Declarations of preloaded constants

What the pattern of preloaded constants finds on a line is the text of a `PreloadDeclaration`
(`exists_declaration`). Its words are told from its form: `const`, the name, the type if one is
given, and `preload`; the path is a literal and has none (`mentionsWord_name`,
`eq_name_or_mem_otherWords`).
-/

namespace GodotLint.Script

open Text Pattern

/-- Text between the words of a declaration: not empty, and without characters of identifiers and
quotation marks. -/
structure IsGap (s : List Char) : Prop where
  ne_nil : s ≠ []
  plain : ∀ c ∈ s, isIdentChar c = false ∧ ¬ Quoting.IsMark c

/-- A constant that preloads a resource, as it is declared. -/
structure PreloadDeclaration where
  name : List Char
  /-- The type that the constant is declared with, and the text before it. -/
  annotation : Option (List Char × List Char)
  mark : Char
  path : List Char
  /-- What stands before the name. -/
  gap : List Char
  /-- What stands between the name, or the type, and the call. -/
  sign : List Char
  /-- What stands before the path. -/
  opening : List Char
  /-- What stands after the path. -/
  closing : List Char
  isIdent : isIdent name = true
  isAnnotation : ∀ a ∈ annotation, IsGap a.1 ∧ Text.isIdent a.2 = true
  isMark : Quoting.IsMark mark
  path_clean : mark ∉ path
  isGap : IsGap gap
  isSign : IsGap sign
  isOpening : IsGap opening
  isClosing : IsGap closing

namespace PreloadDeclaration

/-- The annotation as it is written. -/
def annotationText (d : PreloadDeclaration) : List Char :=
  (d.annotation.map fun a => a.1 ++ a.2).getD []

/-- The declaration as it is written. -/
def text (d : PreloadDeclaration) : List Char :=
  "const".toList ++ (d.gap ++ (d.name ++ (d.annotationText ++ (d.sign ++ ("preload".toList ++
    (d.opening ++ d.mark :: (d.path ++ d.mark :: d.closing)))))))

end PreloadDeclaration

/-! ## The pattern -/

section pattern

variable {pre w post : List Char} {gs : List (Nat × Span)}

/-- A literal between marks of one kind. -/
theorem accepts_between {mark : Char} {s : String} (hs : s.toList = [mark]) :
    (char mark ++ star (charNotOf s) ++ char mark).Accepts pre w post gs ↔
      (∃ path, w = mark :: (path ++ [mark]) ∧ mark ∉ path) ∧ gs = [] := by
  rw [accepts_append_of_right fun _ _ _ _ => accepts_char]
  simp only [accepts_append_of_left fun _ _ _ _ => accepts_char,
    accepts_star fun _ _ _ _ => accepts_charNotOf, hs]
  constructor
  · rintro ⟨_, _, rfl, ⟨_, path, rfl, rfl, hpath, rfl⟩, rfl⟩
    exact ⟨⟨path, by simp, fun hmem => hpath mark hmem (by simp)⟩, rfl⟩
  · rintro ⟨⟨path, rfl, hpath⟩, rfl⟩
    refine ⟨mark :: path, [mark], by simp, ⟨[mark], path, rfl, rfl, fun c hc => ?_, rfl⟩, rfl⟩
    rw [List.mem_singleton]
    rintro rfl
    exact hpath hc

/-- The literal of a path. -/
theorem accepts_path : (choice [char '"' ++ star (charNotOf "\"") ++ char '"',
      char '\x27' ++ star (charNotOf "'") ++ char '\x27']).Accepts pre w post gs ↔
    (∃ mark path, Quoting.IsMark mark ∧ w = mark :: (path ++ [mark]) ∧ mark ∉ path) ∧ gs = [] := by
  change (char '"' ++ star (charNotOf "\"") ++ char '"').Accepts pre w post gs ∨
    (char '\x27' ++ star (charNotOf "'") ++ char '\x27').Accepts pre w post gs ↔ _
  rw [accepts_between rfl, accepts_between rfl, ← or_and_right]
  refine and_congr_left fun _ => ?_
  constructor
  · rintro (⟨path, hw, hpath⟩ | ⟨path, hw, hpath⟩)
    · exact ⟨'"', path, .inl rfl, hw, hpath⟩
    · exact ⟨'\x27', path, .inr rfl, hw, hpath⟩
  · rintro ⟨mark, path, rfl | rfl, hw, hpath⟩
    · exact .inl ⟨path, hw, hpath⟩
    · exact .inr ⟨path, hw, hpath⟩

/-- A type after a colon, or nothing. -/
theorem accepts_annotation : (opt (char ':' ++ blanks ++ ident)).Accepts pre w post gs ↔
    ((∃ g i, w = ':' :: (g ++ i) ∧ (∀ c ∈ g, isBlank c = true) ∧ isIdent i = true) ∨ w = []) ∧
      gs = [] := by
  rw [accepts_opt, accepts_append_of_right fun _ _ _ _ => accepts_ident]
  simp only [accepts_append_of_left fun _ _ _ _ => accepts_char, accepts_blanks]
  constructor
  · rintro (⟨_, i, rfl, ⟨_, g, rfl, rfl, hg, rfl⟩, hi⟩ | ⟨rfl, rfl⟩)
    · exact ⟨.inl ⟨g, i, rfl, hg, hi⟩, rfl⟩
    · exact ⟨.inr rfl, rfl⟩
  · rintro ⟨⟨g, i, rfl, hg, hi⟩ | rfl, rfl⟩
    · exact .inl ⟨':' :: g, i, rfl, ⟨[':'], g, rfl, rfl, hg, rfl⟩, hi⟩
    · exact .inr ⟨rfl, rfl⟩

theorem accepts_opt_char {c : Char} :
    (opt (char c)).Accepts pre w post gs ↔ (w = [c] ∨ w = []) ∧ gs = [] := by
  rw [accepts_opt, accepts_char, ← or_and_right]

/-- What stands before the sign of a declaration. -/
theorem accepts_constName :
    (atStart ++ lit "const" ++ blanks1 ++ group 1 ident).Accepts pre w post gs →
      ∃ g name, pre = [] ∧ w = "const".toList ++ (g ++ name) ∧ (g ≠ [] ∧ ∀ c ∈ g, isBlank c = true) ∧
        isIdent name = true ∧ gs.lookup 1 = some ⟨width ("const".toList ++ g), name⟩ := by
  intro h
  obtain ⟨u, name, gu, gv, rfl, rfl, hu, hgroup⟩ := accepts_append.mp h
  obtain ⟨_, hident, rfl⟩ := accepts_group.mp hgroup
  obtain ⟨hname, rfl⟩ := accepts_ident.mp hident
  rw [accepts_append_of_right fun _ _ _ _ => accepts_blanks1] at hu
  obtain ⟨u, g, rfl, hu, hg⟩ := hu
  obtain ⟨u, _, _, _, rfl, rfl, ⟨rfl, rfl, rfl⟩, hconst⟩ := accepts_append.mp hu
  obtain ⟨rfl, rfl⟩ := accepts_lit.mp hconst
  exact ⟨g, name, rfl, by simp, hg, hname, by simp⟩

theorem plain_of_isBlank {c : Char} (h : isBlank c = true) :
    isIdentChar c = false ∧ ¬ Quoting.IsMark c := by
  constructor
  · rw [Bool.eq_false_iff]
    intro hident
    rw [isBlank_eq_false_of_isIdentChar hident] at h
    cases h
  · intro hmark
    rw [hmark.not_blank] at h
    cases h

theorem IsGap.append {s t : List Char} (hs : IsGap s) (ht : ∀ c ∈ t, isBlank c = true) :
    IsGap (s ++ t) where
  ne_nil := by simp [hs.ne_nil]
  plain := by
    intro c hc
    rcases List.mem_append.mp hc with hc | hc
    · exact hs.plain c hc
    · exact plain_of_isBlank (ht c hc)

/-- Blanks before signs that are in no identifier and no quotation mark. -/
theorem isGap_concat {s t : List Char} (hs : ∀ c ∈ s, isBlank c = true) (hne : t ≠ [])
    (ht : ∀ c ∈ t, c ∈ [':', '=', '(', ')']) : IsGap (s ++ t) where
  ne_nil := by simp [hne]
  plain := by
    intro c hc
    rcases List.mem_append.mp hc with hc | hc
    · exact plain_of_isBlank (hs c hc)
    · have hsign := ht c hc
      simp only [List.mem_cons, List.not_mem_nil, or_false] at hsign
      unfold Quoting.IsMark
      rcases hsign with rfl | rfl | rfl | rfl <;> decide

/-- What the pattern accepts is a declaration that is the whole text, and group 1 is its name. -/
theorem exists_declaration (h : preloadedConstant.Accepts pre w post gs) :
    ∃ d : PreloadDeclaration, pre = [] ∧ post = [] ∧ w = d.text ∧
      (gs.lookup 1).map (·.chars) = some d.name := by
  rw [preloadedConstant, accepts_append] at h
  obtain ⟨_, _, gs, _, rfl, rfl, h, ⟨rfl, rfl, rfl⟩⟩ := h
  simp only [accepts_append_of_right fun _ _ _ _ => accepts_blanks,
    accepts_append_of_right fun _ _ _ _ => accepts_char,
    accepts_append_of_right fun _ _ _ _ => accepts_lit,
    accepts_append_of_right fun _ _ _ _ => accepts_path,
    accepts_append_of_right fun _ _ _ _ => accepts_annotation,
    accepts_append_of_right fun _ _ _ _ => accepts_opt_char] at h
  -- from the end of the text to its start
  obtain ⟨_, b₈, rfl, ⟨_, _, rfl, ⟨_, b₇, rfl, h, hb₇⟩, rfl⟩, hb₈⟩ := h
  obtain ⟨_, _, rfl, ⟨_, b₆, rfl, h, hb₆⟩, mark, path, hmark, rfl, hpath⟩ := h
  obtain ⟨_, _, rfl, ⟨_, b₅, rfl, ⟨_, _, rfl, h, rfl⟩, hb₅⟩, rfl⟩ := h
  obtain ⟨_, b₄, rfl, ⟨_, _, rfl, ⟨_, colon, rfl, h, hcolon⟩, rfl⟩, hb₄⟩ := h
  obtain ⟨_, b₃, rfl, ⟨_, a, rfl, ⟨_, b₂, rfl, h, hb₂⟩, ha⟩, hb₃⟩ := h
  obtain ⟨g, name, rfl, rfl, hg, hname, hgroup⟩ := accepts_constName h
  have hgap : IsGap g := ⟨hg.1, fun c hc => plain_of_isBlank (hg.2 c hc)⟩
  have hopening : IsGap (b₅ ++ ['('] ++ b₆) := (isGap_concat hb₅ (by simp) (by simp)).append hb₆
  have hclosing : IsGap (b₇ ++ [')'] ++ b₈) := (isGap_concat hb₇ (by simp) (by simp)).append hb₈
  have hsign : ∀ b : List Char, (∀ c ∈ b, isBlank c = true) → IsGap (b ++ (colon ++ ['=']) ++ b₄) := by
    intro b hb
    refine (isGap_concat hb (by simp) ?_).append hb₄
    rcases hcolon with rfl | rfl <;> simp
  rcases ha with ⟨b, type, rfl, hb, htype⟩ | rfl
  · have hannot : IsGap (b₂ ++ [':'] ++ b) := (isGap_concat hb₂ (by simp) (by simp)).append hb
    refine ⟨⟨name, some (b₂ ++ [':'] ++ b, type), mark, path, g, _, _, _, hname,
      fun a ha => ?_, hmark, hpath, hgap, hsign b₃ hb₃, hopening, hclosing⟩, rfl, rfl, ?_, ?_⟩
    · obtain rfl := Option.mem_some.mp ha
      exact ⟨hannot, htype⟩
    · simp [PreloadDeclaration.text, PreloadDeclaration.annotationText]
    · simp [hgroup]
  · have hblank : ∀ c ∈ b₂ ++ b₃, isBlank c = true := fun c hc =>
      (List.mem_append.mp hc).elim (hb₂ c) (hb₃ c)
    refine ⟨⟨name, none, mark, path, g, _, _, _, hname, by simp, hmark, hpath, hgap,
      hsign _ hblank, hopening, hclosing⟩, rfl, rfl, ?_, ?_⟩
    · simp [PreloadDeclaration.text, PreloadDeclaration.annotationText]
    · simp [hgroup]

end pattern

/-- A line that preloads a constant is a declaration of that name. -/
theorem exists_declaration_of_preloadedName? {line name : List Char}
    (h : preloadedName? line = some name) :
    ∃ d : PreloadDeclaration, trimEnd (Line.code line) = d.text ∧ d.name = name := by
  obtain ⟨m, hm, rfl⟩ := Option.map_eq_some_iff.mp h
  obtain ⟨pre, w, post, gs, hcode, hacc, rfl⟩ := find?_eq_some hm
  obtain ⟨d, rfl, rfl, rfl, hname⟩ := exists_declaration hacc
  refine ⟨d, by simpa using hcode, ?_⟩
  rw [Match.group, Match.group?, Match.of_groups, hname]
  rfl

/-! ## The words of a declaration -/

namespace PreloadDeclaration

variable (d : PreloadDeclaration)

/-- The words of a declaration and what stands between them, up to the path. -/
def head : List Char :=
  "const".toList ++ (d.gap ++ (d.name ++ (d.annotationText ++ (d.sign ++ ("preload".toList ++
    d.opening)))))

theorem text_eq : d.text = d.head ++ d.mark :: (d.path ++ d.mark :: d.closing) := by
  simp [text, head]

/-- There is no quotation mark before the path. -/
theorem not_isMark_of_mem_head : ∀ c ∈ d.head, ¬ Quoting.IsMark c := by
  have hword : ∀ w : List Char, Text.isIdent w = true → ∀ c ∈ w, ¬ Quoting.IsMark c :=
    fun w hw c hc => Quoting.not_isMark_of_isIdentChar (isIdentChar_of_isIdent hw c hc)
  have hannot : ∀ c ∈ d.annotationText, ¬ Quoting.IsMark c := by
    intro c hc
    rw [annotationText] at hc
    cases h : d.annotation with
    | none => simp [h] at hc
    | some a =>
        obtain ⟨hgap, htype⟩ := d.isAnnotation a h
        simp only [h, Option.map_some, Option.getD_some, List.mem_append] at hc
        exact hc.elim (fun hc => (hgap.plain c hc).2) (hword _ htype c)
  intro c hc
  simp only [head, List.mem_append] at hc
  rcases hc with hc | hc | hc | hc | hc | hc | hc
  · exact hword _ (by decide) c hc
  · exact (d.isGap.plain c hc).2
  · exact hword _ d.isIdent c hc
  · exact hannot c hc
  · exact (d.isSign.plain c hc).2
  · exact hword _ (by decide) c hc
  · exact (d.isOpening.plain c hc).2

/-- Masked, a declaration keeps what stands before its path, and no word comes after it. -/
theorem exists_mask_eq {b : List Char} (hb : ∀ c ∈ b, isBlank c = true) :
    ∃ r, Line.mask (d.text ++ b) = d.head ++ r ∧ ∀ c ∈ r, isIdentChar c = false := by
  have hrest : ∀ c ∈ d.mark :: (d.closing ++ b), isIdentChar c = false := by
    intro c hc
    rcases List.mem_cons.mp hc with rfl | hc
    · rw [Bool.eq_false_iff]
      exact fun h => Quoting.not_isMark_of_isIdentChar h d.isMark
    · rcases List.mem_append.mp hc with hc | hc
      · exact (d.isClosing.plain c hc).1
      · exact (plain_of_isBlank (hb c hc)).1
  have htext : d.text ++ b = d.head ++ d.mark :: (d.path ++ d.mark :: (d.closing ++ b)) := by
    simp [text_eq]
  have hmask := Line.mem_maskFrom_inside d.path_clean (.inl rfl)
  refine ⟨Line.maskFrom .outside (d.mark :: (d.path ++ d.mark :: (d.closing ++ b))), ?_, ?_⟩
  · rw [htext, Line.mask, Line.maskFrom_append, Line.maskFrom_outside d.not_isMark_of_mem_head,
      Quoting.read_outside d.not_isMark_of_mem_head]
  · intro c hc
    rw [Line.maskFrom, Quoting.next_outside_of_mark d.isMark, Line.maskFrom_append,
      List.mem_append, List.mem_append] at hc
    rcases hc with hc | hc | hc
    · rw [Quoting.isInside, Bool.false_and] at hc
      simp only [Bool.false_eq_true, if_false, List.mem_singleton] at hc
      exact hrest c (by simp [hc])
    · rw [hmask.1 c hc]
      decide
    · rcases Line.mem_maskFrom hc with rfl | hc
      · decide
      · exact hrest c hc

/-- The words of a declaration besides its name: `const`, `preload` and its type. -/
def otherWords : List (List Char) :=
  "const".toList :: "preload".toList :: (d.annotation.map (·.2)).toList

/-- A word and a gap in front of a text make one piece of it. -/
theorem mem_pieces_of_gap {w v s t : List Char} (hv : Text.isIdent v = true) (hs : IsGap s)
    (hw : w ≠ []) (h : w ∈ splitWhere (!isIdentChar ·) (v ++ (s ++ t))) :
    w = v ∨ w ∈ splitWhere (!isIdentChar ·) t := by
  have hword : ∀ c ∈ v, (!isIdentChar c) = false := fun c hc => by
    simp [isIdentChar_of_isIdent hv c hc]
  have hgap : ∀ c ∈ s, (!isIdentChar c) = true := fun c hc => by simp [(hs.plain c hc).1]
  exact (mem_splitWhere_of_word hword hs.ne_nil hgap h).imp_right fun h => h.resolve_left hw

/-- The pieces of what stands before the path are the words of the declaration. -/
theorem mem_pieces_head {w r : List Char} (hw : w ≠ []) (hr : ∀ c ∈ r, isIdentChar c = false)
    (h : w ∈ splitWhere (!isIdentChar ·) (d.head ++ r)) : w = d.name ∨ w ∈ d.otherWords := by
  have hlast : w ∈ splitWhere (!isIdentChar ·) ("preload".toList ++ (d.opening ++ r)) →
      w = "preload".toList := by
    intro ht
    have hopening : ∀ c ∈ r, (!isIdentChar c) = true := fun c hc => by simp [hr c hc]
    rcases mem_pieces_of_gap (by decide) d.isOpening hw ht with rfl | ht
    · rfl
    · rw [← List.append_nil r] at ht
      have := mem_splitWhere_of_separators hopening ht
      simp [splitWhere, hw] at this
  simp only [head, List.append_assoc] at h
  rcases mem_pieces_of_gap (by decide) d.isGap hw h with rfl | h
  · simp [otherWords]
  cases hannot : d.annotation with
  | none =>
      simp only [annotationText, hannot, Option.map_none, Option.getD_none,
        List.nil_append] at h
      rcases mem_pieces_of_gap d.isIdent d.isSign hw h with rfl | h
      · simp [otherWords]
      · rw [hlast h]
        simp [otherWords]
  | some a =>
      obtain ⟨hbefore, htype⟩ := d.isAnnotation a hannot
      simp only [annotationText, hannot, Option.map_some, Option.getD_some,
        List.append_assoc] at h
      rcases mem_pieces_of_gap d.isIdent hbefore hw h with rfl | h
      · simp [otherWords]
      rcases mem_pieces_of_gap htype d.isSign hw h with rfl | h
      · simp [otherWords, hannot]
      · rw [hlast h]
        simp [otherWords]

/-- A declaration mentions no words but its own. -/
theorem eq_name_or_mem_otherWords {line w : List Char}
    (hline : trimEnd (Line.code line) = d.text) (hw : Text.isIdent w = true)
    (h : mentionsWord w line = true) : w = d.name ∨ w ∈ d.otherWords := by
  obtain ⟨b, hcode, hb⟩ := exists_trimEnd_append (Line.code line)
  obtain ⟨r, hmask, hr⟩ := d.exists_mask_eq hb
  rw [hline] at hcode
  rw [mentionsWord, hcode, hmask] at h
  have hpiece := Line.mem_splitWhere_of_containsWord (isIdentChar_of_isIdent hw) h
  exact d.mem_pieces_head (ne_nil_of_isIdent hw) hr hpiece

theorem endsWord_append {s : List Char} (hs : IsGap s) (t : List Char) :
    Line.endsWord (s ++ t) = true := by
  obtain ⟨c, r, rfl⟩ := List.exists_cons_of_ne_nil hs.ne_nil
  simp [Line.endsWord, hs.plain c (by simp)]

/-- A declaration mentions its name. -/
theorem mentionsWord_name {line : List Char} (hline : trimEnd (Line.code line) = d.text) :
    mentionsWord d.name line = true := by
  obtain ⟨b, hcode, hb⟩ := exists_trimEnd_append (Line.code line)
  obtain ⟨r, hmask, -⟩ := d.exists_mask_eq hb
  rw [hline] at hcode
  obtain ⟨v, hv, hend⟩ : ∃ v, d.head ++ r = "const".toList ++ d.gap ++ d.name ++ v ∧
      Line.endsWord v = true := by
    refine ⟨d.annotationText ++ (d.sign ++ ("preload".toList ++ (d.opening ++ r))), by simp [head], ?_⟩
    cases hannot : d.annotation with
    | none => simpa [annotationText, hannot] using endsWord_append d.isSign _
    | some a =>
        simpa [annotationText, hannot] using
          endsWord_append (d.isAnnotation a hannot).1 _
  have hgap : ("const".toList ++ d.gap).getLast?.all (!isIdentChar ·) = true := by
    rw [List.getLast?_append_of_ne_nil _ d.isGap.ne_nil]
    cases hlast : d.gap.getLast? with
    | none => rfl
    | some c => simp [(d.isGap.plain c (List.mem_of_getLast? hlast)).1]
  rw [mentionsWord, hcode, hmask, hv]
  exact Line.containsWord_append (ne_nil_of_isIdent d.isIdent)
    (fun c hc => utf8Size_of_isIdentChar (isIdentChar_of_isIdent d.isIdent c hc)) hgap hend

end PreloadDeclaration

end GodotLint.Script
