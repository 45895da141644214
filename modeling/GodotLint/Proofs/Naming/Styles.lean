import GodotLint.Naming.Words
import GodotLint.Proofs.Pattern.Parts
import GodotLint.Proofs.Pattern.Scan
import GodotLint.Proofs.Text.CaseMap
import GodotLint.Proofs.Text.Lines

/-!
# The styles of names

A name is in `snake_case` if, after underscores, it starts with a lowercase letter and goes on with
lowercase letters, digits and underscores: where the underscores stand does not matter
(`isSnakeCase_iff`, and `isScreamingCase_iff` and `isPascalCase_iff` likewise).

The conversions cut a name into words of letters and digits of every script and change their case,
so that they give a name of this form as far as it is ASCII (`toSnakeCase_shape`,
`toScreamingCase_shape`, `toPascalCase_shape`). A converted name is therefore in its style exactly
if it is ASCII (`isSnakeCase_toSnakeCase_iff` and its siblings), and that of an ASCII name always
is. A character beyond ASCII may well become ASCII, as `ß` does in `SS`.
-/

namespace GodotLint.Naming

open Text Pattern

/-! ## Classes of characters -/

/-- Lowercase letters and digits. -/
def isSmall (c : Char) : Bool := isAsciiLower c || isAsciiDigit c

/-- Capitals and digits. -/
def isCapital (c : Char) : Bool := isAsciiUpper c || isAsciiDigit c

/-- A character of a class, or an underscore. -/
def orUnderscore (p : Char → Bool) (c : Char) : Bool := p c || c == '_'

/-- A character of a class, given by its items. -/
def isIn (items : List ClassItem) (c : Char) : Bool := items.any (·.holds c)

theorem isIn_lower : isIn [.range 'a' 'z'] = isAsciiLower := by
  funext c
  simp [isIn, ClassItem.holds, isAsciiLower]

theorem isIn_upper : isIn [.range 'A' 'Z'] = isAsciiUpper := by
  funext c
  simp [isIn, ClassItem.holds, isAsciiUpper]

theorem isIn_small : isIn [.range 'a' 'z', .range '0' '9'] = isSmall := by
  funext c
  simp [isIn, ClassItem.holds, isSmall, isAsciiLower, isAsciiDigit]

theorem isIn_capital : isIn [.range 'A' 'Z', .range '0' '9'] = isCapital := by
  funext c
  simp [isIn, ClassItem.holds, isCapital, isAsciiUpper, isAsciiDigit]

theorem isIn_alnum :
    isIn [.range 'A' 'Z', .range 'a' 'z', .range '0' '9'] = isAsciiAlnum := by
  funext c
  simp [isIn, ClassItem.holds, isAsciiAlnum, isAsciiLetter, isAsciiUpper, isAsciiLower,
    isAsciiDigit, Bool.or_assoc]

/-! ## Words between underscores -/

/-- Underscores and a word behind them. -/
def IsChunk (part : Char → Bool) (w : List Char) : Prop :=
  ∃ before word, w = before ++ word ∧ (before ≠ [] ∧ ∀ x ∈ before, x = '_') ∧
    word ≠ [] ∧ ∀ x ∈ word, part x = true

theorem not_isChunk_nil (part : Char → Bool) : ¬ IsChunk part [] := by
  rintro ⟨before, word, h, ⟨hne, -⟩, -⟩
  exact hne (List.append_eq_nil_iff.mp h.symm).1

/-- The underscores before a chunk may be more. -/
theorem IsChunk.cons {part : Char → Bool} {w : List Char} (h : IsChunk part w) :
    IsChunk part ('_' :: w) := by
  obtain ⟨before, word, rfl, ⟨-, hbefore⟩, hword⟩ := h
  exact ⟨'_' :: before, word, rfl, ⟨by simp, by simpa using hbefore⟩, hword⟩

/-- A text that is cut into a word, chunks and underscores behind them. The word and the underscores
may be missing. -/
def IsCut (part : Char → Bool) (s word : List Char) (chunks : List (List Char)) (after : List Char) :
    Prop :=
  s = word ++ chunks.flatten ++ after ∧ (∀ x ∈ word, part x = true) ∧
    (∀ w ∈ chunks, IsChunk part w) ∧ ∀ x ∈ after, x = '_'

theorem orUnderscore_of_isChunk {part : Char → Bool} {w : List Char} (h : IsChunk part w) :
    ∀ x ∈ w, orUnderscore part x = true := by
  obtain ⟨before, word, rfl, ⟨-, hbefore⟩, -, hword⟩ := h
  intro x hx
  rw [orUnderscore, Bool.or_eq_true, beq_iff_eq]
  exact (List.mem_append.mp hx).symm.imp (hword x) (hbefore x)

theorem IsCut.orUnderscore {part : Char → Bool} {s word after : List Char}
    {chunks : List (List Char)} (h : IsCut part s word chunks after) :
    ∀ x ∈ s, orUnderscore part x = true := by
  obtain ⟨rfl, hword, hchunks, hafter⟩ := h
  intro x hx
  simp only [List.mem_append, List.mem_flatten] at hx
  rcases hx with (hx | ⟨w, hw, hx⟩) | hx
  · simp [Naming.orUnderscore, hword x hx]
  · exact orUnderscore_of_isChunk (hchunks w hw) x hx
  · simp [Naming.orUnderscore, hafter x hx]

/-- Every text of characters of a class and underscores can be cut. -/
theorem exists_isCut {part : Char → Bool} {s : List Char}
    (h : ∀ x ∈ s, orUnderscore part x = true) :
    ∃ word chunks after, IsCut part s word chunks after := by
  induction s with
  | nil => exact ⟨[], [], [], rfl, by simp, by simp, by simp⟩
  | cons x s ih =>
      obtain ⟨word, chunks, after, rfl, hword, hchunks, hafter⟩ :=
        ih fun y hy => h y (List.mem_cons_of_mem x hy)
      have hx := h x List.mem_cons_self
      rw [orUnderscore, Bool.or_eq_true, beq_iff_eq] at hx
      rcases hx with hx | rfl
      · exact ⟨x :: word, chunks, after, by simp, by simpa [hx] using hword, hchunks, hafter⟩
      -- an underscore goes to what stands behind it: the word, the first chunk or the end
      by_cases hempty : word = []
      · subst hempty
        cases chunks with
        | nil => exact ⟨[], [], '_' :: after, by simp, by simp, by simp, by simpa using hafter⟩
        | cons w chunks =>
            rw [List.forall_mem_cons] at hchunks
            refine ⟨[], ('_' :: w) :: chunks, after, by simp, by simp, ?_, hafter⟩
            exact List.forall_mem_cons.mpr ⟨hchunks.1.cons, hchunks.2⟩
      · have hchunk : IsChunk part ('_' :: word) :=
          ⟨['_'], word, rfl, ⟨by simp, by simp⟩, hempty, hword⟩
        refine ⟨[], ('_' :: word) :: chunks, after, by simp, by simp, ?_, hafter⟩
        exact List.forall_mem_cons.mpr ⟨hchunk, hchunks⟩

/-! ## What the shapes accept -/

/-- Underscores, a first letter, and then characters of a class. -/
def HasShape (first part : Char → Bool) (s : List Char) : Prop :=
  ∃ before c rest, s = before ++ c :: rest ∧ (∀ x ∈ before, x = '_') ∧ first c = true ∧
    ∀ x ∈ rest, part x = true

section delimited

variable (first part : List ClassItem) {pre w post s : List Char} {gs : List (Nat × Span)}

/-- Words with underscores between and around them. The first word starts with a letter. -/
def delimited : Pattern :=
  .atStart ++ .star (.char '_') ++ .oneOf first ++ .star (.oneOf part) ++
    .star (.plus (.char '_') ++ .plus (.oneOf part)) ++ .star (.char '_') ++ .atEnd

theorem accepts_chunk : (Pattern.plus (.char '_') ++ .plus (.oneOf part)).Accepts pre w post gs ↔
    IsChunk (isIn part) w ∧ gs = [] := by
  rw [accepts_append_of_left fun _ _ _ _ => accepts_plus_char]
  simp only [accepts_plus fun _ _ _ _ => accepts_oneOf]
  constructor
  · rintro ⟨before, word, rfl, hbefore, hword, rfl⟩
    exact ⟨⟨before, word, rfl, hbefore, hword⟩, rfl⟩
  · rintro ⟨⟨before, word, rfl, hbefore, hword⟩, rfl⟩
    exact ⟨before, word, rfl, hbefore, hword, rfl⟩

/-- What the parts of the pattern accept, one after the other. -/
theorem accepts_delimited_parts : (delimited first part).Accepts pre w post gs ↔
    pre = [] ∧ post = [] ∧ gs = [] ∧ ∃ before c rest, w = before ++ c :: rest ∧
      (∀ x ∈ before, x = '_') ∧ isIn first c = true ∧
      ∃ word chunks after, IsCut (isIn part) rest word chunks after := by
  rw [delimited, accepts_append_atEnd]
  simp only [accepts_append_of_right fun _ _ _ _ => accepts_star_char,
    accepts_append_of_right fun _ _ _ _ =>
      accepts_star_words (fun _ _ _ _ => accepts_chunk part) (not_isChunk_nil (isIn part)),
    accepts_append_of_right fun _ _ _ _ => accepts_oneOf,
    accepts_append_of_right fun _ _ _ _ => accepts_star fun _ _ _ _ => accepts_oneOf]
  constructor
  -- the parts are taken off from the end
  · rintro ⟨⟨_, after, rfl, h, hafter⟩, rfl⟩
    obtain ⟨_, _, rfl, h, chunks, rfl, hchunks⟩ := h
    obtain ⟨_, word, rfl, h, hword⟩ := h
    obtain ⟨_, _, rfl, h, c, rfl, hc⟩ := h
    obtain ⟨_, before, rfl, ⟨rfl, rfl, rfl⟩, hbefore⟩ := h
    exact ⟨rfl, rfl, rfl, before, c, _, by simp, hbefore, hc, word, chunks, after, rfl, hword,
      hchunks, hafter⟩
  · rintro ⟨rfl, rfl, rfl, before, c, _, rfl, hbefore, hc, word, chunks, after, rfl, hword,
      hchunks, hafter⟩
    refine ⟨⟨before ++ [c] ++ word ++ chunks.flatten, after, by simp, ?_, hafter⟩, rfl⟩
    refine ⟨before ++ [c] ++ word, _, rfl, ?_, chunks, rfl, hchunks⟩
    refine ⟨before ++ [c], word, rfl, ?_, hword⟩
    refine ⟨before, [c], rfl, ?_, c, rfl, hc⟩
    exact ⟨[], before, rfl, ⟨rfl, rfl, rfl⟩, hbefore⟩

/-- **Words with underscores** are all texts of the shape: where the underscores stand does not
matter. -/
theorem accepts_delimited : (delimited first part).Accepts pre w post gs ↔
    pre = [] ∧ post = [] ∧ gs = [] ∧ HasShape (isIn first) (orUnderscore (isIn part)) w := by
  rw [accepts_delimited_parts]
  refine and_congr_right fun _ => and_congr_right fun _ => and_congr_right fun _ => ?_
  constructor
  · rintro ⟨before, c, rest, hw, hbefore, hc, word, chunks, after, hcut⟩
    exact ⟨before, c, rest, hw, hbefore, hc, hcut.orUnderscore⟩
  · rintro ⟨before, c, rest, hw, hbefore, hc, hrest⟩
    exact ⟨before, c, rest, hw, hbefore, hc, exists_isCut hrest⟩

theorem occursIn_delimited_iff : (delimited first part).occursIn s = true ↔
    HasShape (isIn first) (orUnderscore (isIn part)) s := by
  simp only [occursIn_iff, accepts_delimited]
  constructor
  · rintro ⟨_, w, _, _, rfl, rfl, rfl, rfl, h⟩
    simpa using h
  · intro h
    exact ⟨[], s, [], [], by simp, rfl, rfl, rfl, h⟩

end delimited

theorem isSnakeCase_iff {s : List Char} :
    isSnakeCase s = true ↔ HasShape isAsciiLower (orUnderscore isSmall) s := by
  rw [← isIn_lower, ← isIn_small, ← occursIn_delimited_iff]
  rfl

theorem isScreamingCase_iff {s : List Char} :
    isScreamingCase s = true ↔ HasShape isAsciiUpper (orUnderscore isCapital) s := by
  rw [← isIn_upper, ← isIn_capital, ← occursIn_delimited_iff]
  rfl

theorem accepts_pascalShape {pre w post : List Char} {gs : List (Nat × Span)} :
    pascalShape.Accepts pre w post gs ↔ pre = [] ∧ post = [] ∧ gs = [] ∧
      ∃ before c rest, w = before ++ c :: rest ∧ (before = ['_'] ∨ before = []) ∧
        isAsciiUpper c = true ∧ ∀ x ∈ rest, isAsciiAlnum x = true := by
  rw [← isIn_upper, ← isIn_alnum, pascalShape, accepts_append_atEnd]
  simp only [accepts_append_of_right fun _ _ _ _ => accepts_oneOf,
    accepts_append_of_right fun _ _ _ _ => accepts_star fun _ _ _ _ => accepts_oneOf,
    accepts_atStart_append, accepts_opt, accepts_char, ← or_and_right]
  constructor
  · rintro ⟨⟨_, rest, rfl, h, hrest⟩, rfl⟩
    obtain ⟨before, _, rfl, ⟨rfl, hbefore, rfl⟩, c, rfl, hc⟩ := h
    exact ⟨rfl, rfl, rfl, before, c, rest, by simp, hbefore, hc, hrest⟩
  · rintro ⟨rfl, rfl, rfl, before, c, rest, rfl, hbefore, hc, hrest⟩
    refine ⟨⟨before ++ [c], rest, by simp, ?_, hrest⟩, rfl⟩
    exact ⟨before, [c], rfl, ⟨rfl, hbefore, rfl⟩, c, rfl, hc⟩

theorem isPascalCase_iff {s : List Char} :
    isPascalCase s = true ↔ ∃ before c rest, s = before ++ c :: rest ∧
      (before = ['_'] ∨ before = []) ∧ isAsciiUpper c = true ∧
      ∀ x ∈ rest, isAsciiAlnum x = true := by
  simp only [isPascalCase, occursIn_iff, accepts_pascalShape]
  constructor
  · rintro ⟨_, w, _, _, rfl, rfl, rfl, rfl, h⟩
    simpa using h
  · intro h
    exact ⟨[], s, [], [], by simp, rfl, rfl, rfl, h⟩

/-! ## Words -/

/-- A word is not empty, and its characters are those read already or letters and digits of the
name. -/
theorem mem_wordsFrom {P : Char → Prop} {word name : List Char} (hword : ∀ c ∈ word, P c)
    (hname : ∀ c ∈ name, isAlphanumeric c = true → P c) {w : List Char}
    (hw : w ∈ wordsFrom word name) : w ≠ [] ∧ ∀ c ∈ w, P c := by
  have hfinished : ∀ word : List Char, (∀ c ∈ word, P c) → w ∈ finished word →
      w ≠ [] ∧ ∀ c ∈ w, P c := by
    intro word hword hw
    rw [finished] at hw
    split_ifs at hw with hempty
    · cases hw
    · rw [List.mem_singleton] at hw
      subst hw
      exact ⟨by simpa using hempty, by simpa using hword⟩
  induction name generalizing word with
  | nil => exact hfinished word hword hw
  | cons c rest ih =>
      rw [List.forall_mem_cons] at hname
      rw [wordsFrom] at hw
      by_cases hgap : (c == '_' || !isAlphanumeric c) = true
      · rw [if_pos hgap] at hw
        exact (List.mem_append.mp hw).elim (hfinished word hword) (ih (by simp) hname.2)
      · rw [if_neg hgap] at hw
        have hletter : c ≠ '_' ∧ isAlphanumeric c = true := by simpa using hgap
        have hc : P c := hname.1 hletter.2
        split_ifs at hw with hstart
        · exact (List.mem_append.mp hw).elim (hfinished word hword) (ih (by simpa using hc) hname.2)
        · exact ih (List.forall_mem_cons.mpr ⟨hc, hword⟩) hname.2 hw

/-- A word is not empty. -/
theorem ne_nil_of_mem_words {name w : List Char} (hw : w ∈ words name) : w ≠ [] :=
  (mem_wordsFrom (P := fun _ => True) (by simp) (by simp) hw).1

/-- A word is made of letters and digits. -/
theorem isAlphanumeric_of_mem_words {name w : List Char} (hw : w ∈ words name) :
    ∀ c ∈ w, isAlphanumeric c = true :=
  (mem_wordsFrom (by simp) (fun _ _ h => h) hw).2

/-- A word is made of characters of the name. -/
theorem mem_of_mem_words {name w : List Char} (hw : w ∈ words name) : ∀ c ∈ w, c ∈ name :=
  (mem_wordsFrom (by simp) (fun _ h _ => h) hw).2

/-! ## Conversions -/

/-- ASCII letters and digits of a name are those of every script. -/
theorem isAsciiOnlyIf_of_isAlphanumeric {c : Char} (h : isAlphanumeric c = true) :
    isAsciiOnlyIf isAsciiAlnum c = true := by
  rw [isAlphanumeric] at h
  split_ifs at h with hc
  · exact isAsciiOnlyIf_of h
  · exact isAsciiOnlyIf_of_not_isAscii (by simpa using hc)

/-- The words of a name in lower case are made of lowercase letters and digits, as far as they are
ASCII. -/
theorem isAsciiOnlyIf_of_mem_lower {w : List Char} (hw : ∀ c ∈ w, isAlphanumeric c = true)
    {x : Char} (hx : x ∈ lower w) : isAsciiOnlyIf isSmall x = true := by
  rcases mem_lower hx with hx | ⟨hx, hupper⟩
  · exact isAsciiOnlyIf_mono (fun c hc => by simp [isSmall, hc]) hx
  · have halnum := isAsciiOnlyIf_of_isAlphanumeric (hw x hx)
    simpa [isAsciiOnlyIf, isAsciiAlnum, isAsciiLetter, hupper, isSmall] using halnum

/-- The words of a name in lower case, joined by underscores. -/
def joined (name : List Char) : List Char := join ['_'] ((words name).map lower)

theorem mem_joined {name : List Char} {x : Char} (hx : x ∈ joined name) :
    x = '_' ∨ ∃ w ∈ words name, x ∈ lower w := by
  rcases mem_join hx with hx | ⟨_, hlower, hx⟩
  · exact .inl (List.mem_singleton.mp hx)
  · obtain ⟨w, hw, rfl⟩ := List.mem_map.mp hlower
    exact .inr ⟨w, hw, hx⟩

/-- The joined words start with a letter or a digit, as far as they are ASCII. -/
theorem isAsciiOnlyIf_head_joined {name rest : List Char} {c : Char} (h : joined name = c :: rest) :
    isAsciiOnlyIf isSmall c = true := by
  cases hwords : words name with
  | nil => simp [joined, hwords, join] at h
  | cons w ws =>
      have hw : w ∈ words name := hwords ▸ List.mem_cons_self
      obtain ⟨rest', hjoin⟩ := exists_join_cons ['_'] (lower w) (ws.map lower)
      obtain ⟨d, t, hlower⟩ := List.exists_cons_of_ne_nil (lower_ne_nil (ne_nil_of_mem_words hw))
      rw [joined, hwords, List.map_cons, hjoin, hlower, List.cons_append] at h
      obtain ⟨rfl, -⟩ := List.cons.inj h
      exact isAsciiOnlyIf_of_mem_lower (isAlphanumeric_of_mem_words hw)
        (hlower ▸ List.mem_cons_self)

theorem snakeBody_eq_joined (name : List Char) :
    snakeBody name = dropEndWhile (· == '_')
      (if (joined name).isEmpty || (joined name).head?.any isAsciiDigit then
        'v' :: '_' :: joined name
      else joined name) := rfl

theorem mem_snakeBody {name : List Char} {x : Char} (hx : x ∈ snakeBody name) :
    x = 'v' ∨ x = '_' ∨ x ∈ joined name := by
  rw [snakeBody_eq_joined] at hx
  have hx := mem_of_mem_dropEndWhile hx
  split_ifs at hx with hmark
  · simpa using hx
  · exact .inr (.inr hx)

/-- The body starts with a lowercase letter, if with an ASCII character. -/
theorem exists_head_snakeBody (name : List Char) :
    ∃ c rest, snakeBody name = c :: rest ∧ isAsciiOnlyIf isAsciiLower c = true := by
  have hstay : ∀ {c}, isAsciiOnlyIf isAsciiLower c = true → (c == '_') = false := by
    rintro c hc
    rw [beq_eq_false_iff_ne]
    rintro rfl
    cases hc
  rw [snakeBody_eq_joined]
  split_ifs with hmark
  · exact ⟨'v', _, dropEndWhile_cons rfl _, rfl⟩
  · rw [Bool.or_eq_true, not_or] at hmark
    obtain ⟨hempty, hdigit⟩ := hmark
    rw [List.isEmpty_iff] at hempty
    obtain ⟨c, rest, hjoined⟩ := List.exists_cons_of_ne_nil hempty
    have hc : isAsciiOnlyIf isAsciiLower c = true := by
      have hsmall := isAsciiOnlyIf_head_joined hjoined
      have hdigit : isAsciiDigit c = false := by simpa [hjoined] using hdigit
      simpa [isAsciiOnlyIf, isSmall, hdigit] using hsmall
    rw [hjoined]
    exact ⟨c, _, dropEndWhile_cons (p := (· == '_')) (hstay hc) rest, hc⟩

/-- The body consists of lowercase letters, digits and underscores, as far as it is ASCII. -/
theorem isAsciiOnlyIf_of_mem_snakeBody {name : List Char} {x : Char} (hx : x ∈ snakeBody name) :
    isAsciiOnlyIf (orUnderscore isSmall) x = true := by
  rcases mem_snakeBody hx with rfl | rfl | hx
  · rfl
  · rfl
  · rcases mem_joined hx with rfl | ⟨w, hw, hx⟩
    · rfl
    · have hsmall := isAsciiOnlyIf_of_mem_lower (isAlphanumeric_of_mem_words hw) hx
      exact isAsciiOnlyIf_mono (fun c hc => by simp [orUnderscore, hc]) hsmall

theorem toSnakeCase_shape (name : List Char) :
    HasShape (isAsciiOnlyIf isAsciiLower) (isAsciiOnlyIf (orUnderscore isSmall))
      (toSnakeCase name) := by
  obtain ⟨c, rest, hbody, hc⟩ := exists_head_snakeBody name
  refine ⟨leadingUnderscores name, c, rest, by rw [toSnakeCase, hbody], ?_, hc, ?_⟩
  · intro x hx
    simpa using List.mem_takeWhile_imp hx
  · intro x hx
    exact isAsciiOnlyIf_of_mem_snakeBody (hbody ▸ List.mem_cons_of_mem c hx)

/-- Upper case brings a name in `snake_case` into the other shape. -/
theorem HasShape.upper {s : List Char}
    (h : HasShape (isAsciiOnlyIf isAsciiLower) (isAsciiOnlyIf (orUnderscore isSmall)) s) :
    HasShape (isAsciiOnlyIf isAsciiUpper) (isAsciiOnlyIf (orUnderscore isCapital)) (upper s) := by
  obtain ⟨before, c, rest, rfl, hbefore, hc, hrest⟩ := h
  have hunderscores : before.flatMap upperChar = before := by
    clear hc hrest
    induction before with
    | nil => rfl
    | cons x before ih =>
        rw [List.forall_mem_cons] at hbefore
        rw [List.flatMap_cons, ih hbefore.2, hbefore.1]
        rfl
  have hfirst : ∀ x ∈ upperChar c, isAsciiOnlyIf isAsciiUpper x = true := by
    intro x hx
    rcases mem_upperChar hx with hx | ⟨rfl, hlower⟩
    · exact hx
    · exact isAsciiOnlyIf_of_not_isAscii (by simpa [isAsciiOnlyIf, hlower] using hc)
  obtain ⟨d, t, hupper⟩ := List.exists_cons_of_ne_nil (upperChar_ne_nil c)
  rw [hupper, List.forall_mem_cons] at hfirst
  refine ⟨before, d, t ++ rest.flatMap upperChar, ?_, hbefore, hfirst.1, ?_⟩
  · rw [Text.upper, List.flatMap_append, List.flatMap_cons, hunderscores, hupper]
    simp
  · intro x hx
    rcases List.mem_append.mp hx with hx | hx
    · exact isAsciiOnlyIf_mono (fun y hy => by simp [orUnderscore, isCapital, hy]) (hfirst.2 x hx)
    · rcases mem_upper hx with hx | ⟨hx, hlower⟩
      · exact isAsciiOnlyIf_mono (fun y hy => by simp [orUnderscore, isCapital, hy]) hx
      · have hsmall := hrest x hx
        simp only [isAsciiOnlyIf, orUnderscore, isSmall, hlower, isCapital,
          Bool.or_eq_true] at hsmall ⊢
        tauto

theorem toScreamingCase_shape (name : List Char) :
    HasShape (isAsciiOnlyIf isAsciiUpper) (isAsciiOnlyIf (orUnderscore isCapital))
      (toScreamingCase name) :=
  (toSnakeCase_shape name).upper

/-- A capitalized word is made of ASCII letters and digits, as far as it is ASCII. -/
theorem isAsciiOnlyIf_of_mem_capitalized {w : List Char} (hw : ∀ c ∈ w, isAlphanumeric c = true)
    {x : Char} (hx : x ∈ capitalized w) : isAsciiOnlyIf isAsciiAlnum x = true := by
  cases w with
  | nil => cases hx
  | cons c tail =>
      rw [List.forall_mem_cons] at hw
      rcases List.mem_append.mp hx with hx | hx
      · rcases mem_upperChar hx with hx | ⟨rfl, -⟩
        · exact isAsciiOnlyIf_mono (fun y hy => by simp [isAsciiAlnum, isAsciiLetter, hy]) hx
        · exact isAsciiOnlyIf_of_isAlphanumeric hw.1
      · rw [softened] at hx
        split_ifs at hx with hlower
        · exact isAsciiOnlyIf_of_isAlphanumeric (hw.2 x hx)
        · rcases mem_lower hx with hx | ⟨hx, -⟩
          · exact isAsciiOnlyIf_mono (fun y hy => by simp [isAsciiAlnum, isAsciiLetter, hy]) hx
          · exact isAsciiOnlyIf_of_isAlphanumeric (hw.2 x hx)

theorem toPascalCase_shape (name : List Char) :
    ∃ c rest, toPascalCase name = c :: rest ∧ isAsciiUpper c = true ∧
      ∀ x ∈ rest, isAsciiOnlyIf isAsciiAlnum x = true := by
  have hbody : ∀ x ∈ (words name).flatMap capitalized, isAsciiOnlyIf isAsciiAlnum x = true := by
    intro x hx
    obtain ⟨w, hw, hx⟩ := List.mem_flatMap.mp hx
    exact isAsciiOnlyIf_of_mem_capitalized (isAlphanumeric_of_mem_words hw) hx
  rw [toPascalCase]
  split_ifs with hupper
  · obtain ⟨c, hhead, hc⟩ := (Option.any_eq_true _ _).mp hupper
    obtain ⟨rest, heq⟩ := List.head?_eq_some_iff.mp hhead
    rw [heq, List.forall_mem_cons] at hbody
    exact ⟨c, rest, heq, hc, hbody.2⟩
  · exact ⟨'C', _, rfl, rfl, hbody⟩

/-! ## When a converted name is in the style -/

/-- A text whose ASCII characters have the shape has the shape if it is all ASCII. -/
theorem HasShape.of_isAscii {first part : Char → Bool} {s : List Char}
    (h : HasShape (isAsciiOnlyIf first) (isAsciiOnlyIf part) s)
    (hs : ∀ x ∈ s, isAscii x = true) : HasShape first part s := by
  obtain ⟨before, c, rest, rfl, hbefore, hc, hrest⟩ := h
  rw [List.forall_mem_append, List.forall_mem_cons] at hs
  obtain ⟨-, hc', hrest'⟩ := hs
  exact ⟨before, c, rest, rfl, hbefore, of_isAsciiOnlyIf hc hc',
    fun x hx => of_isAsciiOnlyIf (hrest x hx) (hrest' x hx)⟩

/-- A text of a shape is ASCII if the classes of the shape are. -/
theorem HasShape.isIdentChar {first part : Char → Bool} {s : List Char} (h : HasShape first part s)
    (hfirst : ∀ c, first c = true → isIdentChar c = true)
    (hpart : ∀ c, part c = true → isIdentChar c = true) : ∀ x ∈ s, isIdentChar x = true := by
  obtain ⟨before, c, rest, rfl, hbefore, hc, hrest⟩ := h
  rw [List.forall_mem_append, List.forall_mem_cons]
  refine ⟨fun x hx => ?_, hfirst c hc, fun x hx => hpart x (hrest x hx)⟩
  rw [hbefore x hx]
  rfl

theorem isIdentChar_of_isSnakeCase {s : List Char} (h : isSnakeCase s = true) :
    ∀ x ∈ s, isIdentChar x = true := by
  refine (isSnakeCase_iff.mp h).isIdentChar (fun c hc => ?_) fun c hc => ?_
  · simp [isIdentChar, isAsciiAlnum, isAsciiLetter, hc]
  · simp only [orUnderscore, isSmall, Bool.or_eq_true] at hc
    simp only [isIdentChar, isAsciiAlnum, isAsciiLetter, Bool.or_eq_true]
    tauto

theorem isIdentChar_of_isScreamingCase {s : List Char} (h : isScreamingCase s = true) :
    ∀ x ∈ s, isIdentChar x = true := by
  refine (isScreamingCase_iff.mp h).isIdentChar (fun c hc => ?_) fun c hc => ?_
  · simp [isIdentChar, isAsciiAlnum, isAsciiLetter, hc]
  · simp only [orUnderscore, isCapital, Bool.or_eq_true] at hc
    simp only [isIdentChar, isAsciiAlnum, isAsciiLetter, Bool.or_eq_true]
    tauto

theorem isIdentChar_of_isPascalCase {s : List Char} (h : isPascalCase s = true) :
    ∀ x ∈ s, isIdentChar x = true := by
  obtain ⟨before, c, rest, rfl, hbefore, hc, hrest⟩ := isPascalCase_iff.mp h
  rw [List.forall_mem_append, List.forall_mem_cons]
  refine ⟨?_, by simp [isIdentChar, isAsciiAlnum, isAsciiLetter, hc], fun x hx => ?_⟩
  · rcases hbefore with rfl | rfl <;> simp [isIdentChar]
  · simp [isIdentChar, hrest x hx]

/-- A name that is put into `snake_case` is in it exactly if it then is ASCII. -/
theorem isSnakeCase_toSnakeCase_iff {name : List Char} :
    isSnakeCase (toSnakeCase name) = true ↔ ∀ x ∈ toSnakeCase name, isAscii x = true :=
  ⟨fun h x hx => isAscii_of_isIdentChar (isIdentChar_of_isSnakeCase h x hx),
    fun h => isSnakeCase_iff.mpr ((toSnakeCase_shape name).of_isAscii h)⟩

theorem isScreamingCase_toScreamingCase_iff {name : List Char} :
    isScreamingCase (toScreamingCase name) = true ↔
      ∀ x ∈ toScreamingCase name, isAscii x = true :=
  ⟨fun h x hx => isAscii_of_isIdentChar (isIdentChar_of_isScreamingCase h x hx),
    fun h => isScreamingCase_iff.mpr ((toScreamingCase_shape name).of_isAscii h)⟩

theorem isPascalCase_toPascalCase_iff {name : List Char} :
    isPascalCase (toPascalCase name) = true ↔ ∀ x ∈ toPascalCase name, isAscii x = true := by
  refine ⟨fun h x hx => isAscii_of_isIdentChar (isIdentChar_of_isPascalCase h x hx), fun h => ?_⟩
  obtain ⟨c, rest, heq, hc, hrest⟩ := toPascalCase_shape name
  rw [heq, List.forall_mem_cons] at h
  exact isPascalCase_iff.mpr ⟨[], c, rest, heq, .inr rfl, hc,
    fun x hx => of_isAsciiOnlyIf (hrest x hx) (h.2 x hx)⟩

/-! ## Names in ASCII stay in it -/

section ascii

variable {name : List Char} (hname : ∀ c ∈ name, isAscii c = true)

include hname

theorem isAscii_of_mem_toSnakeCase : ∀ x ∈ toSnakeCase name, isAscii x = true := by
  intro x hx
  rcases List.mem_append.mp hx with hx | hx
  · exact hname x ((List.takeWhile_sublist _).mem hx)
  rcases mem_snakeBody hx with rfl | rfl | hx
  · rfl
  · rfl
  rcases mem_joined hx with rfl | ⟨w, hw, hx⟩
  · rfl
  · exact isAscii_of_mem_lower (fun c hc => hname c (mem_of_mem_words hw c hc)) hx

theorem isAscii_of_mem_toScreamingCase : ∀ x ∈ toScreamingCase name, isAscii x = true :=
  fun _ hx => isAscii_of_mem_upper (isAscii_of_mem_toSnakeCase hname) hx

theorem isAscii_of_mem_toPascalCase : ∀ x ∈ toPascalCase name, isAscii x = true := by
  have hbody : ∀ x ∈ (words name).flatMap capitalized, isAscii x = true := by
    intro x hx
    obtain ⟨w, hw, hx⟩ := List.mem_flatMap.mp hx
    have hascii : ∀ c ∈ w, isAscii c = true := fun c hc => hname c (mem_of_mem_words hw c hc)
    cases w with
    | nil => cases hx
    | cons c tail =>
        rw [List.forall_mem_cons] at hascii
        rcases List.mem_append.mp hx with hx | hx
        · exact isAscii_of_mem_upperChar hascii.1 hx
        · rw [softened] at hx
          split_ifs at hx with hlower
          · exact hascii.2 x hx
          · exact isAscii_of_mem_lower hascii.2 hx
  rw [toPascalCase]
  split_ifs with hupper
  · exact hbody
  · exact List.forall_mem_cons.mpr ⟨rfl, hbody⟩

end ascii

end GodotLint.Naming
