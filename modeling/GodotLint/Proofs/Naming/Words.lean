import GodotLint.Proofs.Naming.Styles

/-!
# The words of a name

Cutting a name into words drops what is neither a letter nor a digit, and nothing else
(`flatten_words`). Where there are no capitals only an underscore ends a word, so small words that are
joined by underscores are found again (`words_join`). A name that is put into `snake_case` is made of such
words after the underscores it starts with, and to put it into `snake_case` again changes nothing
(`toSnakeCase_toSnakeCase`).
-/

namespace GodotLint.Naming

open Text

/-! ## What is cut -/

theorem flatten_finished (word : List Char) : (finished word).flatten = word.reverse := by
  unfold finished
  by_cases hempty : word = []
  · simp [hempty]
  · simp [hempty]

/-- A word that was read is finished as it stands in the name. -/
theorem finished_reverse {w : List Char} (h : w ≠ []) : finished w.reverse = [w] := by
  simp [finished, h]

theorem flatten_wordsFrom (word name : List Char) :
    (wordsFrom word name).flatten = word.reverse ++ name.filter isAlphanumeric := by
  induction name generalizing word with
  | nil => simp [wordsFrom, flatten_finished]
  | cons c rest ih =>
      rw [wordsFrom]
      by_cases hgap : (c == '_' || !isAlphanumeric c) = true
      · have hc : isAlphanumeric c = false := by
          rcases (Bool.or_eq_true _ _).mp hgap with hc | hc
          · rw [beq_iff_eq.mp hc]
            decide
          · simpa using hc
        rw [if_pos hgap, List.flatten_append, flatten_finished, ih]
        simp [hc]
      · have hc : isAlphanumeric c = true := by
          simp only [Bool.or_eq_true, not_or, Bool.not_eq_true, Bool.not_eq_false'] at hgap
          exact hgap.2
        rw [if_neg hgap]
        split_ifs with hstart
        · rw [List.flatten_append, flatten_finished, ih]
          simp [hc]
        · rw [ih]
          simp [hc]

/-- **The words of a name** are its letters and digits. -/
theorem flatten_words (name : List Char) : (words name).flatten = name.filter isAlphanumeric :=
  flatten_wordsFrom [] name

/-- An underscore ends a word. -/
theorem wordsFrom_underscore (word rest : List Char) :
    wordsFrom word ('_' :: rest) = finished word ++ words rest := rfl

/-- Letters and digits that are no capitals go on with a word. -/
theorem wordsFrom_append {u : List Char}
    (hu : ∀ c ∈ u, isAlphanumeric c = true ∧ isUpper c = false) (word rest : List Char) :
    wordsFrom word (u ++ rest) = wordsFrom (u.reverse ++ word) rest := by
  induction u generalizing word with
  | nil => rfl
  | cons c u ih =>
      obtain ⟨⟨halnum, hupper⟩, hu⟩ := List.forall_mem_cons.mp hu
      have hne : c ≠ '_' := by
        rintro rfl
        exact absurd halnum (by decide)
      rw [List.cons_append, wordsFrom, if_neg (by simp [hne, halnum]), if_neg (by simp [hupper]),
        ih hu]
      simp

/-- Underscores in front belong to no word. -/
theorem words_append_of_underscores {u : List Char} (hu : ∀ c ∈ u, c = '_') (s : List Char) :
    words (u ++ s) = words s := by
  induction u with
  | nil => rfl
  | cons c u ih =>
      rw [List.forall_mem_cons] at hu
      rw [List.cons_append, hu.1, words, wordsFrom_underscore]
      exact ih hu.2

/-! ## Small words -/

/-- A word of lowercase letters and digits, those of ASCII. -/
def IsSmallWord (w : List Char) : Prop := w ≠ [] ∧ ∀ c ∈ w, isSmall c = true

instance (w : List Char) : Decidable (IsSmallWord w) :=
  decidable_of_iff (w ≠ [] ∧ w.all isSmall = true) (and_congr_right fun _ => List.all_eq_true)

section small

variable {c : Char}

theorem isIdentChar_of_isSmall (h : isSmall c = true) : isIdentChar c = true := by
  unfold isSmall at h
  simp only [isIdentChar, isAsciiAlnum, isAsciiLetter, Bool.or_eq_true] at h ⊢
  tauto

theorem isAlphanumeric_of_isSmall (h : isSmall c = true) : isAlphanumeric c = true := by
  rw [isAlphanumeric, if_pos (isAscii_of_isIdentChar (isIdentChar_of_isSmall h))]
  unfold isSmall at h
  simp only [isAsciiAlnum, isAsciiLetter, Bool.or_eq_true] at h ⊢
  tauto

theorem isAsciiUpper_of_isSmall (h : isSmall c = true) : isAsciiUpper c = false := by
  rw [Bool.eq_false_iff]
  intro hupper
  simp only [isSmall, isAsciiLower, isAsciiDigit, isAsciiUpper, Bool.or_eq_true, Bool.and_eq_true,
    decide_eq_true_eq, Char.le_def, UInt32.le_iff_toNat_le] at h hupper
  have hdigit : '9'.val.toNat < 'A'.val.toNat := by decide
  have hletter : 'Z'.val.toNat < 'a'.val.toNat := by decide
  omega

theorem isAsciiDigit_of_isAsciiLower (h : isAsciiLower c = true) : isAsciiDigit c = false := by
  rw [Bool.eq_false_iff]
  intro hdigit
  simp only [isAsciiLower, isAsciiDigit, Bool.and_eq_true, decide_eq_true_eq, Char.le_def,
    UInt32.le_iff_toNat_le] at h hdigit
  have hbelow : '9'.val.toNat < 'a'.val.toNat := by decide
  omega

theorem isUpper_of_isSmall (h : isSmall c = true) : isUpper c = false := by
  rw [isUpper, if_pos (isAscii_of_isIdentChar (isIdentChar_of_isSmall h))]
  exact isAsciiUpper_of_isSmall h

theorem lowerChar_of_isSmall (h : isSmall c = true) : lowerChar c = [c] := by
  rw [lowerChar, if_pos (isAscii_of_isIdentChar (isIdentChar_of_isSmall h)), isAsciiUpper_of_isSmall h]
  rfl

theorem beq_of_isSmall {d : Char} (h : isSmall c = true) (hd : isSmall d = false) :
    (c == d) = false := by
  rw [beq_eq_false_iff_ne]
  rintro rfl
  rw [hd] at h
  cases h

theorem lowerFrom_of_isSmall (passed : List Char) {s : List Char} (h : ∀ c ∈ s, isSmall c = true) :
    lowerFrom passed s = s := by
  induction s generalizing passed with
  | nil => rfl
  | cons c s ih =>
      rw [List.forall_mem_cons] at h
      have hsigma : (c == 'Σ') = false := beq_of_isSmall h.1 (by decide)
      rw [lowerFrom, hsigma, ih _ h.2, lowerChar_of_isSmall h.1]
      rfl

/-- A text of lowercase letters and digits is in lower case. -/
theorem lower_of_isSmall {s : List Char} (h : ∀ c ∈ s, isSmall c = true) : lower s = s :=
  lowerFrom_of_isSmall [] h

end small

/-! ## Joined words -/

section joined

variable {ws : List (List Char)}

/-- **Small words are found again** where they are joined by underscores. -/
theorem words_join (h : ∀ w ∈ ws, IsSmallWord w) : words (join ['_'] ws) = ws := by
  have hplain : ∀ w, IsSmallWord w → ∀ c ∈ w, isAlphanumeric c = true ∧ isUpper c = false := by
    intro w hw c hc
    exact ⟨isAlphanumeric_of_isSmall (hw.2 c hc), isUpper_of_isSmall (hw.2 c hc)⟩
  induction ws with
  | nil => rfl
  | cons w ws ih =>
      obtain ⟨hw, hws⟩ := List.forall_mem_cons.mp h
      by_cases hlast : ws = []
      · subst hlast
        have hword := wordsFrom_append (hplain w hw) [] []
        rw [List.append_nil] at hword
        rw [join, words, hword, wordsFrom, List.append_nil, finished_reverse hw.1]
      · rw [join_cons hlast, List.append_assoc, words, wordsFrom_append (hplain w hw),
          List.singleton_append, wordsFrom_underscore, List.append_nil, finished_reverse hw.1, ih hws]
        rfl

/-- Small words in lower case are the same words. -/
theorem map_lower (h : ∀ w ∈ ws, IsSmallWord w) : ws.map lower = ws := by
  have hsame : ∀ w ∈ ws, lower w = w := fun w hw => lower_of_isSmall (h w hw).2
  rw [List.map_congr_left hsame, List.map_id']

/-- Joined small words do not end with an underscore. -/
theorem dropEndWhile_join (h : ∀ w ∈ ws, IsSmallWord w) :
    dropEndWhile (· == '_') (join ['_'] ws) = join ['_'] ws := by
  have hlast : ws ≠ [] → ∃ s c, join ['_'] ws = s ++ [c] ∧ isSmall c = true := by
    intro hne
    induction ws with
    | nil => exact absurd rfl hne
    | cons w ws ih =>
        obtain ⟨hw, hws⟩ := List.forall_mem_cons.mp h
        by_cases hlast : ws = []
        · obtain ⟨s, c, rfl⟩ := (List.eq_nil_or_concat' w).resolve_left hw.1
          subst hlast
          exact ⟨s, c, by simp [join], hw.2 c (by simp)⟩
        · obtain ⟨s, c, hjoin, hc⟩ := ih hws hlast
          refine ⟨w ++ ['_'] ++ s, c, ?_, hc⟩
          rw [join_cons hlast, hjoin, List.append_assoc (w ++ ['_'])]
  by_cases hne : ws = []
  · subst hne
    rfl
  · obtain ⟨s, c, hjoin, hc⟩ := hlast hne
    have hstay : (c == '_') = false := beq_of_isSmall hc (by decide)
    rw [hjoin]
    simp [dropEndWhile, hstay]

end joined

/-! ## Names in the plainest form -/

/-- A text that starts with a lowercase letter. -/
def StartsWithLetter (s : List Char) : Prop := s.head?.any isAsciiLower = true

instance (s : List Char) : Decidable (StartsWithLetter s) := inferInstanceAs (Decidable (_ = _))

theorem startsWithLetter_cons {c : Char} {s : List Char} :
    StartsWithLetter (c :: s) ↔ isAsciiLower c = true := Iff.rfl

/-- The words of a name in the plainest form, like the stem of a file: small words, the first of which
starts with a letter. -/
structure IsStem (ws : List (List Char)) : Prop where
  small : ∀ w ∈ ws, IsSmallWord w
  first : StartsWithLetter (join ['_'] ws)

instance (ws : List (List Char)) : Decidable (IsStem ws) :=
  decidable_of_iff ((∀ w ∈ ws, IsSmallWord w) ∧ StartsWithLetter (join ['_'] ws))
    ⟨fun h => ⟨h.1, h.2⟩, fun h => ⟨h.small, h.first⟩⟩

/-- Small words behind a letter. -/
theorem isStem_cons {ws : List (List Char)} (h : ∀ w ∈ ws, IsSmallWord w) : IsStem (['v'] :: ws) := by
  refine ⟨List.forall_mem_cons.mpr ⟨by decide, h⟩, ?_⟩
  obtain ⟨rest, hjoin⟩ := exists_join_cons ['_'] ['v'] ws
  rw [hjoin]
  rfl

section conversion

variable {name : List Char} {ws : List (List Char)}

/-- The body of a name is that of its words, where they have the plainest form. -/
theorem snakeBody_of_isStem (h : IsStem ((words name).map lower)) :
    snakeBody name = join ['_'] ((words name).map lower) := by
  have hstart : ((joined name).isEmpty || (joined name).head?.any isAsciiDigit) = false := by
    have hfirst : StartsWithLetter (joined name) := h.first
    cases hjoined : joined name with
    | nil =>
        rw [hjoined] at hfirst
        cases hfirst
    | cons c rest =>
        rw [hjoined, startsWithLetter_cons] at hfirst
        exact isAsciiDigit_of_isAsciiLower hfirst
  rw [snakeBody_eq_joined, hstart, joined]
  exact dropEndWhile_join h.small

/-- A body in the plainest form is that of its words. -/
theorem snakeBody_join (h : IsStem ws) : snakeBody (join ['_'] ws) = join ['_'] ws := by
  have hwords : (words (join ['_'] ws)).map lower = ws := by
    rw [words_join h.small, map_lower h.small]
  have hbody := @snakeBody_of_isStem (join ['_'] ws)
  rw [hwords] at hbody
  exact hbody h

/-- The words of an ASCII name in lower case are small. -/
theorem isSmallWord_of_mem_words (hname : ∀ c ∈ name, isAscii c = true) :
    ∀ w ∈ (words name).map lower, IsSmallWord w := by
  intro w hw
  obtain ⟨v, hv, rfl⟩ := List.mem_map.mp hw
  refine ⟨lower_ne_nil (ne_nil_of_mem_words hv), ?_⟩
  intro c hc
  have hascii : isAscii c = true :=
    isAscii_of_mem_lower (fun d hd => hname d (mem_of_mem_words hv d hd)) hc
  exact of_isAsciiOnlyIf (isAsciiOnlyIf_of_mem_lower (isAlphanumeric_of_mem_words hv) hc) hascii

/-- **The body of an ASCII name has the plainest form.** -/
theorem exists_snakeBody_eq_join (hname : ∀ c ∈ name, isAscii c = true) :
    ∃ ws, IsStem ws ∧ snakeBody name = join ['_'] ws := by
  have hsmall := isSmallWord_of_mem_words hname
  by_cases hnone : words name = []
  · refine ⟨[['v']], isStem_cons (by simp), ?_⟩
    rw [snakeBody_eq_joined, joined, hnone]
    rfl
  have hne : (words name).map lower ≠ [] := by simpa using hnone
  obtain ⟨w, ws, hwords⟩ := List.exists_cons_of_ne_nil hne
  have hw : IsSmallWord w := hsmall w (by simp [hwords])
  obtain ⟨c, t, rfl⟩ := List.exists_cons_of_ne_nil hw.1
  have hjoined : ∃ rest, joined name = c :: rest := by
    obtain ⟨rest, hjoin⟩ := exists_join_cons ['_'] (c :: t) ws
    exact ⟨t ++ rest, by rw [joined, hwords, hjoin, List.cons_append]⟩
  obtain ⟨rest, hjoined⟩ := hjoined
  by_cases hc : isAsciiLower c = true
  · have hstem : IsStem ((words name).map lower) := by
      refine ⟨hsmall, ?_⟩
      rw [← joined, hjoined]
      exact hc
    exact ⟨_, hstem, snakeBody_of_isStem hstem⟩
  · -- the first word starts with a digit, and a word of one letter goes in front
    have hdigit : isAsciiDigit c = true := by
      have hcsmall := hw.2 c List.mem_cons_self
      simpa [isSmall, hc] using hcsmall
    have hmarked : 'v' :: '_' :: joined name = join ['_'] (['v'] :: (words name).map lower) := by
      rw [join_cons hne, joined]
      rfl
    refine ⟨_, isStem_cons hsmall, ?_⟩
    have hmark : ((joined name).isEmpty || (joined name).head?.any isAsciiDigit) = true := by
      rw [hjoined]
      exact hdigit
    rw [snakeBody_eq_joined, if_pos hmark, hmarked]
    exact dropEndWhile_join (isStem_cons hsmall).small

/-- A name in `snake_case` starts with as many underscores as before. -/
theorem leadingUnderscores_toSnakeCase (name : List Char) :
    leadingUnderscores (toSnakeCase name) = leadingUnderscores name := by
  obtain ⟨c, rest, hbody, hc⟩ := exists_head_snakeBody name
  have hstop : (c == '_') = false := by
    rw [beq_eq_false_iff_ne]
    rintro rfl
    exact absurd hc (by decide)
  have hall : ∀ x ∈ leadingUnderscores name, (x == '_') = true := by
    intro x hx
    exact List.mem_takeWhile_imp (p := (· == '_')) hx
  rw [toSnakeCase, hbody]
  change ((leadingUnderscores name) ++ c :: rest).takeWhile (· == '_') = _
  rw [List.takeWhile_append_of_pos hall, List.takeWhile_cons_of_neg (by simp [hstop]),
    List.append_nil]

/-- **To put an ASCII name into `snake_case` twice is to do so once.** -/
theorem toSnakeCase_toSnakeCase (hname : ∀ c ∈ name, isAscii c = true) :
    toSnakeCase (toSnakeCase name) = toSnakeCase name := by
  obtain ⟨ws, hstem, hbody⟩ := exists_snakeBody_eq_join hname
  have hunderscores : ∀ c ∈ leadingUnderscores name, c = '_' := by
    intro c hc
    exact beq_iff_eq.mp (List.mem_takeWhile_imp (p := (· == '_')) hc)
  have hagain : snakeBody (toSnakeCase name) = snakeBody name := by
    calc snakeBody (toSnakeCase name)
        = snakeBody (leadingUnderscores name ++ join ['_'] ws) := by rw [toSnakeCase, hbody]
      _ = snakeBody (join ['_'] ws) := by
        rw [snakeBody_eq_joined, snakeBody_eq_joined, joined, joined,
          words_append_of_underscores hunderscores]
      _ = snakeBody name := by rw [snakeBody_join hstem, hbody]
  rw [toSnakeCase, leadingUnderscores_toSnakeCase, hagain]
  rfl

end conversion

/-- **Names are converted to their styles**: an ASCII name is then in the style, `snake_case` is reached
at once and keeps the underscores at the start, and the words that a name is cut into are its letters
and digits. -/
theorem conversions_areStyled (name : List Char) :
    ((∀ c ∈ name, isAscii c = true) →
      isSnakeCase (toSnakeCase name) = true ∧
      isScreamingCase (toScreamingCase name) = true ∧
      isPascalCase (toPascalCase name) = true ∧
      toSnakeCase (toSnakeCase name) = toSnakeCase name) ∧
    leadingUnderscores (toSnakeCase name) = leadingUnderscores name ∧
    (∀ w ∈ words name, w ≠ []) ∧
    (words name).flatten = name.filter isAlphanumeric := by
  refine ⟨?_, leadingUnderscores_toSnakeCase name, fun w => ne_nil_of_mem_words, flatten_words name⟩
  intro hname
  exact ⟨isSnakeCase_toSnakeCase_iff.mpr (isAscii_of_mem_toSnakeCase hname),
    isScreamingCase_toScreamingCase_iff.mpr (isAscii_of_mem_toScreamingCase hname),
    isPascalCase_toPascalCase_iff.mpr (isAscii_of_mem_toPascalCase hname),
    toSnakeCase_toSnakeCase hname⟩

/-- A name that starts with underscores and a digit, has an acronym and ends with underscores. -/
theorem conversions_areStyled_request : (∀ c ∈ "__3DHTTPRequest_2__".toList, isAscii c = true) ∧
    toSnakeCase "__3DHTTPRequest_2__".toList = "__v_3_dhttp_request_2".toList ∧
    isSnakeCase "__v_3_dhttp_request_2".toList = true ∧
    toSnakeCase "__v_3_dhttp_request_2".toList = "__v_3_dhttp_request_2".toList := by
  have hascii : ∀ c ∈ "__3DHTTPRequest_2__".toList, isAscii c = true :=
    List.all_eq_true.mp (by decide +kernel)
  have hsnake : toSnakeCase "__3DHTTPRequest_2__".toList = "__v_3_dhttp_request_2".toList := by
    decide +kernel
  obtain ⟨hstyle, -, -, hagain⟩ := (conversions_areStyled "__3DHTTPRequest_2__".toList).1 hascii
  rw [hsnake] at hstyle hagain
  exact ⟨hascii, hsnake, hstyle, hagain⟩

end GodotLint.Naming
