import GodotLint.Proofs.Naming.Words

/-!
# Files and their classes

A class is named after the stem of its file: every word gets a capital, and the underscores go. The stem
can be read off the name of the class as long as every word is told from the one before it. That is so if
it starts with a letter, which becomes the capital, and does not look like the end of an acronym, which it
does after a word of one letter unless a lowercase letter follows the capital (`startsAfter_iff`). The
stem is found again exactly if all words are told (`toSnakeCase_classNameOfStem_iff`).
-/

namespace GodotLint.Naming

open Text

/-! ## Capitals -/

/-- A lowercase letter as a capital; a digit stays. -/
def capital (c : Char) : Char := if isAsciiLower c then Char.ofNat (c.toNat - 32) else c

section capital

variable {c : Char}

theorem isAsciiUpper_capital (h : isAsciiLower c = true) : isAsciiUpper (capital c) = true := by
  rw [capital, if_pos h]
  exact isAsciiUpper_ofNat h

theorem isAscii_capital (h : isSmall c = true) : isAscii (capital c) = true := by
  unfold capital
  split_ifs with hlower
  · exact isAscii_of_isAsciiUpper (isAsciiUpper_ofNat hlower)
  · exact isAscii_of_isIdentChar (isIdentChar_of_isSmall h)

theorem isUpper_capital (h : isSmall c = true) : isUpper (capital c) = isAsciiLower c := by
  rw [isUpper, if_pos (isAscii_capital h)]
  by_cases hlower : isAsciiLower c = true
  · rw [hlower, isAsciiUpper_capital hlower]
  · rw [capital, if_neg hlower, isAsciiUpper_of_isSmall h, Bool.eq_false_iff.mpr hlower]

theorem isAlphanumeric_capital (h : isSmall c = true) : isAlphanumeric (capital c) = true := by
  by_cases hlower : isAsciiLower c = true
  · rw [isAlphanumeric, if_pos (isAscii_capital h)]
    simp [isAsciiAlnum, isAsciiLetter, isAsciiUpper_capital hlower]
  · rw [capital, if_neg hlower]
    exact isAlphanumeric_of_isSmall h

theorem isLower_capital (h : isSmall c = true) : isLower (capital c) = false := by
  rw [isLower, if_pos (isAscii_capital h)]
  by_cases hlower : isAsciiLower c = true
  · rw [Bool.eq_false_iff]
    intro hsmall
    have hupper := isAsciiUpper_of_isSmall (c := capital c) (by simp [isSmall, hsmall])
    rw [isAsciiUpper_capital hlower] at hupper
    cases hupper
  · rw [capital, if_neg hlower, Bool.eq_false_iff.mpr hlower]

theorem isLower_of_isSmall (h : isSmall c = true) : isLower c = isAsciiLower c := by
  rw [isLower, if_pos (isAscii_of_isIdentChar (isIdentChar_of_isSmall h))]

/-- Of the small characters, the digits are those that are no letters. -/
theorem isAsciiDigit_iff (h : isSmall c = true) : isAsciiDigit c = true ↔ isAsciiLower c = false := by
  constructor
  · intro hdigit
    rw [Bool.eq_false_iff]
    intro hlower
    rw [isAsciiDigit_of_isAsciiLower hlower] at hdigit
    cases hdigit
  · intro hlower
    simpa [isSmall, hlower] using h

theorem lowerChar_capital (h : isSmall c = true) : lowerChar (capital c) = [c] := by
  by_cases hlower : isAsciiLower c = true
  · have hback : Char.ofNat ((Char.ofNat (c.toNat - 32)).toNat + 32) = c := by
      have hofNat := Char.ofNat_toNat c
      simp only [isAsciiLower, Bool.and_eq_true, decide_eq_true_eq, Char.le_def] at hlower
      have hlow : 97 ≤ c.toNat := hlower.1
      have hhigh : c.toNat ≤ 122 := hlower.2
      rw [← hofNat]
      interval_cases c.toNat <;> decide
    rw [lowerChar, if_pos (isAscii_capital h), if_pos (isAsciiUpper_capital hlower), capital,
      if_pos hlower, hback]
  · rw [capital, if_neg hlower]
    exact lowerChar_of_isSmall h

/-- A small word with a capital has the capital in front and goes on as before. -/
theorem capitalized_cons {tail : List Char} (h : IsSmallWord (c :: tail)) :
    capitalized (c :: tail) = capital c :: tail := by
  have hc : isSmall c = true := h.2 c List.mem_cons_self
  have htail : ∀ d ∈ tail, isSmall d = true := fun d hd => h.2 d (List.mem_cons_of_mem c hd)
  have hsoftened : softened tail = tail := by
    unfold softened
    split_ifs
    · rfl
    · exact lower_of_isSmall htail
  rw [capitalized, hsoftened, upperChar, if_pos (isAscii_of_isIdentChar (isIdentChar_of_isSmall hc))]
  rfl

theorem capital_beq_underscore (h : isSmall c = true) : (capital c == '_') = false := by
  rw [beq_eq_false_iff_ne]
  intro heq
  have halnum := isAlphanumeric_capital h
  rw [heq] at halnum
  exact absurd halnum (by decide)

/-- A capital and what follows it in lower case. -/
theorem lower_capital_cons (h : isSmall c = true) (tail : List Char) :
    lower (capital c :: tail) = c :: lowerFrom [capital c] tail := by
  have hsigma : (capital c == 'Σ') = false := by
    rw [beq_eq_false_iff_ne]
    intro heq
    have hascii := isAscii_capital h
    rw [heq] at hascii
    exact absurd hascii (by decide)
  rw [lower, lowerFrom, hsigma, lowerChar_capital h]
  rfl

/-- A capitalized word in lower case is the word. -/
theorem lower_capitalized {w : List Char} (h : IsSmallWord w) : lower (capitalized w) = w := by
  obtain ⟨c, tail, rfl⟩ := List.exists_cons_of_ne_nil h.1
  rw [capitalized_cons h, lower_capital_cons (h.2 c List.mem_cons_self),
    lowerFrom_of_isSmall _ fun d hd => h.2 d (List.mem_cons_of_mem c hd)]

end capital

/-! ## Capitalized words without underscores -/

/-- Whether a capitalized word is cut off from the text before it, which is read backwards. -/
def startsAfter (before word rest : List Char) : Bool :=
  word.head?.any isAsciiLower && before.head?.any (startsWord · (word.tail ++ rest).head?)

section capitals

variable {v w : List Char} {vs : List (List Char)}

/-- **A capitalized word** begins a word of its own or goes on with the one before it. -/
theorem wordsFrom_capitalized (hv : IsSmallWord v) (before rest : List Char) :
    wordsFrom before (capitalized v ++ rest) =
      if startsAfter before v rest then finished before ++ wordsFrom (capitalized v).reverse rest
      else wordsFrom ((capitalized v).reverse ++ before) rest := by
  obtain ⟨c, tail, rfl⟩ := List.exists_cons_of_ne_nil hv.1
  have hc : isSmall c = true := hv.2 c List.mem_cons_self
  have htail : ∀ d ∈ tail, isAlphanumeric d = true ∧ isUpper d = false := by
    intro d hd
    have hsmall := hv.2 d (List.mem_cons_of_mem c hd)
    exact ⟨isAlphanumeric_of_isSmall hsmall, isUpper_of_isSmall hsmall⟩
  have hstart : (isUpper (capital c) && before.head?.any (startsWord · (tail ++ rest).head?)) =
      startsAfter before (c :: tail) rest := by
    rw [isUpper_capital hc]
    rfl
  have hletter : (capital c == '_' || !isAlphanumeric (capital c)) = false := by
    rw [capital_beq_underscore hc, isAlphanumeric_capital hc]
    rfl
  rw [capitalized_cons hv, List.cons_append, wordsFrom, if_neg (by simp [hletter]), hstart]
  split_ifs
  · rw [wordsFrom_append htail, List.reverse_cons]
  · rw [wordsFrom_append htail, List.reverse_cons, List.append_assoc]
    rfl

/-- A word of one letter. -/
def IsOneLetter (w : List Char) : Prop := w.length = 1 ∧ StartsWithLetter w

/-- A text whose second character is missing or a digit. -/
def EndsOrHasDigit (s : List Char) : Prop := s[1]?.all isAsciiDigit = true

instance (w : List Char) : Decidable (IsOneLetter w) := inferInstanceAs (Decidable (_ ∧ _))

instance (s : List Char) : Decidable (EndsOrHasDigit s) := inferInstanceAs (Decidable (_ = _))

/-- A word is told from the one before it, where both are capitalized and nothing is between them. -/
structure IsTold (w v : List Char) : Prop where
  letter : StartsWithLetter v
  notAcronym : ¬ (IsOneLetter w ∧ EndsOrHasDigit v)

/-- What follows a capitalized word starts with no lowercase letter. -/
theorem isLower_head?_flatMap (h : ∀ w ∈ vs, IsSmallWord w) :
    (vs.flatMap capitalized).head?.any isLower = false := by
  cases vs with
  | nil => rfl
  | cons w vs =>
      have hw : IsSmallWord w := h w List.mem_cons_self
      obtain ⟨c, tail, rfl⟩ := List.exists_cons_of_ne_nil hw.1
      rw [List.flatMap_cons, capitalized_cons hw]
      exact isLower_capital (hw.2 c List.mem_cons_self)

/-- Behind a word of more than one character, and behind a digit, every capital starts a word. -/
theorem startsWord_of_isSmall {c : Char} (h : isSmall c = true) (next : Option Char) :
    startsWord c next = true := by
  unfold startsWord
  by_cases hlower : isAsciiLower c = true
  · simp [isLower_of_isSmall h, hlower]
  · simp [(isAsciiDigit_iff h).mpr (Bool.eq_false_iff.mpr hlower)]

/-- Behind a capital, a capital starts a word only before a lowercase letter. -/
theorem startsWord_capital {c : Char} (h : isAsciiLower c = true) (next : Option Char) :
    startsWord (capital c) next = next.any isLower := by
  have hsmall : isSmall c = true := by simp [isSmall, h]
  have hdigit : isAsciiDigit (capital c) = false := by
    rw [Bool.eq_false_iff]
    intro hdigit
    have hupper := isAsciiUpper_of_isSmall (c := capital c) (by simp [isSmall, hdigit])
    rw [isAsciiUpper_capital h] at hupper
    cases hupper
  rw [startsWord, isLower_capital hsmall, hdigit, isUpper_capital hsmall, h]
  rfl

/-- The last character of a capitalized word tells whether a capital behind it starts a word. -/
theorem startsWord_capitalized_iff (hw : IsSmallWord w) (hv : IsSmallWord v)
    (hvs : ∀ w ∈ vs, IsSmallWord w) : ((capitalized w).reverse.head?.any
      (startsWord · (v.tail ++ vs.flatMap capitalized).head?)) = true ↔
        ¬ (IsOneLetter w ∧ EndsOrHasDigit v) := by
  obtain ⟨c, tail, rfl⟩ := List.exists_cons_of_ne_nil hw.1
  obtain ⟨d, rest, rfl⟩ := List.exists_cons_of_ne_nil hv.1
  have hc : isSmall c = true := hw.2 c List.mem_cons_self
  rw [capitalized_cons hw]
  rcases List.eq_nil_or_concat' tail with rfl | ⟨init, e, rfl⟩
  · by_cases hlower : isAsciiLower c = true
    · have hone : IsOneLetter [c] := ⟨rfl, hlower⟩
      simp only [List.reverse_singleton, List.head?_cons, Option.any_some,
        startsWord_capital hlower, hone, true_and, List.tail_cons]
      cases rest with
      | nil =>
          have hends : EndsOrHasDigit [d] := rfl
          simp [isLower_head?_flatMap hvs, hends]
      | cons e rest =>
          have he : isSmall e = true := hv.2 e (by simp)
          have hends : EndsOrHasDigit (d :: e :: rest) ↔ isAsciiLower e = false :=
            isAsciiDigit_iff he
          simp [hends, isLower_of_isSmall he]
    · have hone : ¬ IsOneLetter [c] := fun hone => hlower hone.2
      simp [capital, hlower, startsWord_of_isSmall hc, hone]
  · have he : isSmall e = true := hw.2 e (by simp)
    have hone : ¬ IsOneLetter (c :: (init ++ [e])) := by
      intro hone
      simpa using hone.1
    simp [startsWord_of_isSmall he, hone]

/-- A capitalized word is cut off from the one before it exactly if it is told from it. -/
theorem startsAfter_iff (hw : IsSmallWord w) (hv : IsSmallWord v) (hvs : ∀ w ∈ vs, IsSmallWord w) :
    startsAfter (capitalized w).reverse v (vs.flatMap capitalized) = true ↔ IsTold w v := by
  rw [startsAfter, Bool.and_eq_true, startsWord_capitalized_iff hw hv hvs]
  constructor
  · rintro ⟨hletter, hnot⟩
    exact ⟨hletter, hnot⟩
  · intro htold
    exact ⟨htold.letter, htold.notAcronym⟩

/-! ## Words of the class -/

/-- Words that are told from each other are found again. -/
theorem wordsFrom_flatMap_capitalized (hw : IsSmallWord w) (hvs : ∀ v ∈ vs, IsSmallWord v)
    (h : (w :: vs).IsChain IsTold) :
    wordsFrom (capitalized w).reverse (vs.flatMap capitalized) = (w :: vs).map capitalized := by
  have hfinished : ∀ {w : List Char}, IsSmallWord w →
      finished (capitalized w).reverse = [capitalized w] := by
    intro w hw
    obtain ⟨c, tail, rfl⟩ := List.exists_cons_of_ne_nil hw.1
    exact finished_reverse (by simp [capitalized_cons hw])
  induction vs generalizing w with
  | nil => exact hfinished hw
  | cons v vs ih =>
      rw [List.forall_mem_cons] at hvs
      obtain ⟨htold, hrest⟩ := List.isChain_cons_cons.mp h
      rw [List.flatMap_cons, wordsFrom_capitalized hvs.1,
        if_pos ((startsAfter_iff hw hvs.1 hvs.2).mpr htold), hfinished hw, ih hvs.1 hvs.2 hrest]
      rfl

theorem length_finished_le (word : List Char) : (finished word).length ≤ 1 := by
  unfold finished
  split_ifs <;> simp

/-- There are never more words than were put together. -/
theorem length_wordsFrom_le (hvs : ∀ v ∈ vs, IsSmallWord v) (before : List Char) :
    (wordsFrom before (vs.flatMap capitalized)).length ≤ vs.length + 1 := by
  induction vs generalizing before with
  | nil => exact length_finished_le before
  | cons v vs ih =>
      rw [List.forall_mem_cons] at hvs
      rw [List.flatMap_cons, wordsFrom_capitalized hvs.1, List.length_cons]
      split_ifs
      · have hfirst := length_finished_le before
        have hrest := ih hvs.2 (capitalized v).reverse
        rw [List.length_append]
        omega
      · have hrest := ih hvs.2 ((capitalized v).reverse ++ before)
        omega

/-- If all words are found again, they are told from each other. -/
theorem isChain_of_length_eq (hw : IsSmallWord w) (hvs : ∀ v ∈ vs, IsSmallWord v)
    (h : (wordsFrom (capitalized w).reverse (vs.flatMap capitalized)).length = vs.length + 1) :
    (w :: vs).IsChain IsTold := by
  induction vs generalizing w with
  | nil => exact List.isChain_singleton w
  | cons v vs ih =>
      rw [List.forall_mem_cons] at hvs
      rw [List.flatMap_cons, wordsFrom_capitalized hvs.1, List.length_cons] at h
      by_cases hstart : startsAfter (capitalized w).reverse v (vs.flatMap capitalized) = true
      · rw [if_pos hstart, List.length_append] at h
        have hfirst := length_finished_le (capitalized w).reverse
        have hle := length_wordsFrom_le hvs.2 (capitalized v).reverse
        refine List.isChain_cons_cons.mpr ⟨(startsAfter_iff hw hvs.1 hvs.2).mp hstart, ?_⟩
        exact ih hvs.1 hvs.2 (by omega)
      · -- a word that is not told is lost
        rw [if_neg hstart] at h
        have hle := length_wordsFrom_le hvs.2 ((capitalized v).reverse ++ (capitalized w).reverse)
        omega

end capitals

/-! ## The stem again -/

section stems

variable {ws : List (List Char)}

theorem IsStem.isAscii (h : IsStem ws) : ∀ c ∈ join ['_'] ws, Text.isAscii c = true := by
  intro c hc
  rcases mem_join hc with hc | ⟨w, hw, hc⟩
  · rw [List.mem_singleton.mp hc]
    rfl
  · exact isAscii_of_isIdentChar (isIdentChar_of_isSmall ((h.small w hw).2 c hc))

theorem IsStem.exists_cons (h : IsStem ws) :
    ∃ c tail vs, ws = (c :: tail) :: vs ∧ isAsciiLower c = true := by
  obtain ⟨hsmall, hfirst⟩ := h
  cases ws with
  | nil => cases hfirst
  | cons w vs =>
      obtain ⟨c, tail, rfl⟩ := List.exists_cons_of_ne_nil (hsmall w List.mem_cons_self).1
      obtain ⟨rest, hjoin⟩ := exists_join_cons ['_'] (c :: tail) vs
      rw [hjoin] at hfirst
      exact ⟨c, tail, vs, rfl, hfirst⟩

/-- The words of a name that starts with a capital are in lower case those of a stem. -/
theorem isStem_of_capital {c : Char} {rest : List Char} (hc : isAsciiLower c = true)
    (hascii : ∀ x ∈ capital c :: rest, isAscii x = true) :
    IsStem ((words (capital c :: rest)).map lower) := by
  have hsmall : isSmall c = true := by simp [isSmall, hc]
  refine ⟨isSmallWord_of_mem_words hascii, ?_⟩
  -- the first word starts with the capital, since no letter is lost
  have hflatten := flatten_words (capital c :: rest)
  rw [List.filter_cons_of_pos (isAlphanumeric_capital hsmall)] at hflatten
  cases hwords : words (capital c :: rest) with
  | nil =>
      rw [hwords] at hflatten
      cases hflatten
  | cons v vs =>
      obtain ⟨d, tail, rfl⟩ := List.exists_cons_of_ne_nil
        (ne_nil_of_mem_words (hwords ▸ List.mem_cons_self : v ∈ words (capital c :: rest)))
      rw [hwords] at hflatten
      obtain rfl : d = capital c := (List.cons.inj hflatten).1
      obtain ⟨more, hjoin⟩ := exists_join_cons ['_'] (lower (capital c :: tail)) (vs.map lower)
      rw [List.map_cons, hjoin, lower_capital_cons hsmall]
      exact hc

/-- A name that starts with a capital has in `snake_case` its words in lower case. -/
theorem toSnakeCase_of_capital {c : Char} {rest : List Char} (hc : isAsciiLower c = true)
    (hascii : ∀ x ∈ capital c :: rest, isAscii x = true) :
    toSnakeCase (capital c :: rest) = join ['_'] ((words (capital c :: rest)).map lower) := by
  have hleading : leadingUnderscores (capital c :: rest) = [] := by
    rw [leadingUnderscores, List.takeWhile_cons_of_neg]
    simp [capital_beq_underscore (c := c) (by simp [isSmall, hc])]
  rw [toSnakeCase, hleading, snakeBody_of_isStem (isStem_of_capital hc hascii)]
  rfl

/-- **The stem is found again** exactly if each of its words is told from the one before it. -/
theorem toSnakeCase_eq_self_iff_isChain (h : IsStem ws) :
    toSnakeCase (classNameOfStem (join ['_'] ws)) = join ['_'] ws ↔ ws.IsChain IsTold := by
  obtain ⟨c, tail, vs, rfl, hc⟩ := h.exists_cons
  obtain ⟨hw, hvs⟩ := List.forall_mem_cons.mp h.small
  have hname : classNameOfStem (join ['_'] ((c :: tail) :: vs)) =
      capital c :: (tail ++ vs.flatMap capitalized) := by
    have hstart : (capital c :: (tail ++ vs.flatMap capitalized)).head?.any isAsciiUpper = true :=
      isAsciiUpper_capital hc
    rw [classNameOfStem, toPascalCase, words_join h.small, List.flatMap_cons, capitalized_cons hw,
      List.cons_append, if_pos hstart]
  have hascii := isAscii_of_mem_toPascalCase h.isAscii
  rw [← classNameOfStem, hname] at hascii
  have hstem := isStem_of_capital hc hascii
  have hwords : words (capital c :: (tail ++ vs.flatMap capitalized)) =
      wordsFrom (capitalized (c :: tail)).reverse (vs.flatMap capitalized) := by
    have hfirst := wordsFrom_capitalized hw [] (vs.flatMap capitalized)
    rw [if_neg (by simp [startsAfter]), capitalized_cons hw, List.append_nil] at hfirst
    rw [capitalized_cons hw]
    exact hfirst
  rw [hname, toSnakeCase_of_capital hc hascii, hwords]
  rw [hwords] at hstem
  constructor
  · intro hjoin
    have hsame := congrArg words hjoin
    rw [words_join hstem.small, words_join h.small] at hsame
    have hlength := congrArg List.length hsame
    rw [List.length_map] at hlength
    exact isChain_of_length_eq hw hvs hlength
  · intro hchain
    have hlower : (((c :: tail) :: vs).map capitalized).map lower = (c :: tail) :: vs := by
      rw [List.map_map]
      have hback : ∀ w ∈ (c :: tail) :: vs, (lower ∘ capitalized) w = w :=
        fun w hw => lower_capitalized (h.small w hw)
      rw [List.map_congr_left hback, List.map_id']
    rw [wordsFrom_flatMap_capitalized hw hvs hchain, hlower]

/-- Every word is told from the one before it if all later ones start with a letter and none follows a
word of one letter like the end of an acronym. -/
theorem isChain_isTold_iff : ws.IsChain IsTold ↔ (∀ w ∈ ws.tail, StartsWithLetter w) ∧
    ws.IsChain fun w v => ¬ (IsOneLetter w ∧ EndsOrHasDigit v) := by
  induction ws with
  | nil => simp
  | cons w ws ih =>
      cases ws with
      | nil => simp
      | cons v ws =>
          rw [List.isChain_cons_cons, List.isChain_cons_cons, ih, List.tail_cons, List.tail_cons,
            List.forall_mem_cons]
          constructor
          · rintro ⟨htold, hletters, hchain⟩
            exact ⟨⟨htold.letter, hletters⟩, htold.notAcronym, hchain⟩
          · rintro ⟨⟨hletter, hletters⟩, hnot, hchain⟩
            exact ⟨⟨hletter, hnot⟩, hletters, hchain⟩

/-- **A stem can be read off the name of its class** exactly if every later word starts with a letter
and no word of one letter is followed by a word whose second character is missing or a digit. -/
theorem toSnakeCase_classNameOfStem_iff (h : IsStem ws) :
    toSnakeCase (classNameOfStem (join ['_'] ws)) = join ['_'] ws ↔
      (∀ w ∈ ws.tail, StartsWithLetter w) ∧
      ws.IsChain fun w v => ¬ (IsOneLetter w ∧ EndsOrHasDigit v) :=
  (toSnakeCase_eq_self_iff_isChain h).trans isChain_isTold_iff

/-- A word of one letter is told from the next one where that goes on with a letter. -/
theorem toSnakeCase_classNameOfStem_axes :
    IsStem ["x".toList, "axis".toList] ∧ IsStem ["x".toList, "y".toList, "axis".toList] ∧
    toSnakeCase (classNameOfStem "x_axis".toList) = "x_axis".toList ∧
    toSnakeCase (classNameOfStem "x_y_axis".toList) ≠ "x_y_axis".toList := by
  have htold : IsStem ["x".toList, "axis".toList] := by decide +kernel
  have hlost : IsStem ["x".toList, "y".toList, "axis".toList] := by decide +kernel
  refine ⟨htold, hlost, ?_, ?_⟩
  · exact (toSnakeCase_classNameOfStem_iff htold).mpr (by decide +kernel)
  · intro hagain
    exact absurd ((toSnakeCase_classNameOfStem_iff hlost).mp hagain) (by decide +kernel)

end stems

end GodotLint.Naming
