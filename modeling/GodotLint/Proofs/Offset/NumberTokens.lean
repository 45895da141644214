import GodotLint.Proofs.Offset.Numbers
import GodotLint.Proofs.Offset.Words

/-!
# Which pieces of a text are numbers

A number is written as digits and underscores, with a fraction and an exponent if there are any, or as `0x`
or `0b` and hexadecimal digits and underscores (`IsNumber`). What the reader takes of a text that starts
with a digit has this form, and it ends before something that is no digit (`numberLength_spec`).

All of what it takes are letters, digits, underscores, points and signs. A run of digits between
characters that are none of these is therefore never reached from inside of something else, and is taken as
a number when it is reached (`mem_numberTokensFrom_of_run`). A sign makes a number start one character
earlier. The number before it ends in a letter, a digit or an underscore, so this character is not yet
taken, and the numbers lie one behind the other (`pairwise_numberTokensFrom`).
-/

namespace GodotLint.Script

open Text Offset

/-! ## The form of a number -/

/-- Digits, at least one. -/
def IsDigits (s : List Char) : Prop := s ≠ [] ∧ ∀ c ∈ s, isAsciiDigit c = true

/-- A point and digits, or nothing. -/
def IsFraction (s : List Char) : Prop := s = [] ∨ ∃ digits, s = '.' :: digits ∧ IsDigits digits

/-- The letter of an exponent, a sign if there is one, and digits, or nothing. -/
def IsExponent (s : List Char) : Prop :=
  s = [] ∨ ∃ letter sign digits, s = letter :: (sign ++ digits) ∧ (letter = 'e' ∨ letter = 'E') ∧
    (sign = [] ∨ sign = ['-'] ∨ sign = ['+']) ∧ IsDigits digits

/-- The form of a number without its sign. -/
inductive IsNumber : List Char → Prop
  | decimal {first : Char} {whole fraction exponent : List Char} (hfirst : isAsciiDigit first = true)
    (hwhole : ∀ c ∈ whole, isDigitOrUnderscore c = true) (hfraction : IsFraction fraction)
    (hexponent : IsExponent exponent) : IsNumber (first :: whole ++ fraction ++ exponent)
  | based {base : Char} {digits : List Char} (hbase : base = 'x' ∨ base = 'b')
    (hdigits : ∀ c ∈ digits, isHexOrUnderscore c = true) : IsNumber ('0' :: base :: digits)

/-- The characters that numbers are made of. -/
def isNumberChar (c : Char) : Bool := isIdentChar c || ['.', '+', '-'].contains c

theorem isNumberChar_of_isIdentChar {c : Char} (h : isIdentChar c = true) : isNumberChar c = true := by
  rw [isNumberChar, h, Bool.true_or]

theorem isIdentChar_of_isAsciiDigit {c : Char} (h : isAsciiDigit c = true) : isIdentChar c = true := by
  simp [isIdentChar, isAsciiAlnum, h]

theorem isIdentChar_of_isDigitOrUnderscore {c : Char} (h : isDigitOrUnderscore c = true) :
    isIdentChar c = true := by
  rcases (Bool.or_eq_true _ _).mp h with h | h
  · exact isIdentChar_of_isAsciiDigit h
  · rw [isIdentChar, h, Bool.or_true]

theorem isIdentChar_of_isHexOrUnderscore {c : Char} (h : isHexOrUnderscore c = true) :
    isIdentChar c = true := by
  simp only [isHexOrUnderscore, Bool.or_eq_true, Bool.and_eq_true, decide_eq_true_eq] at h
  simp only [isIdentChar, isAsciiAlnum, isAsciiLetter, isAsciiUpper, isAsciiLower, Bool.or_eq_true,
    Bool.and_eq_true, decide_eq_true_eq]
  rcases h with ((h | h) | h) | h
  · exact .inl (.inr (by simpa [isAsciiDigit] using h))
  · exact .inl (.inl (.inr ⟨h.1, h.2.trans (by decide)⟩))
  · exact .inl (.inl (.inl ⟨h.1, h.2.trans (by decide)⟩))
  · exact .inr h

theorem isIdentChar_of_isDigits {s : List Char} (h : IsDigits s) : ∀ c ∈ s, isIdentChar c = true :=
  fun c hc => isIdentChar_of_isAsciiDigit (h.2 c hc)

theorem IsFraction.forall_isNumberChar {s : List Char} (h : IsFraction s) :
    ∀ c ∈ s, isNumberChar c = true := by
  rcases h with rfl | ⟨digits, rfl, hdigits⟩
  · simp
  · exact List.forall_mem_cons.mpr
      ⟨by decide, fun c hc => isNumberChar_of_isIdentChar (isIdentChar_of_isDigits hdigits c hc)⟩

theorem IsExponent.forall_isNumberChar {s : List Char} (h : IsExponent s) :
    ∀ c ∈ s, isNumberChar c = true := by
  rcases h with rfl | ⟨letter, sign, digits, rfl, hletter, hsign, hdigits⟩
  · simp
  · have hsigns : ∀ c ∈ sign, isNumberChar c = true := by
      rcases hsign with rfl | rfl | rfl <;> simp [isNumberChar]
    have hall : ∀ c ∈ digits, isNumberChar c = true :=
      fun c hc => isNumberChar_of_isIdentChar (isIdentChar_of_isDigits hdigits c hc)
    have hfirst : isNumberChar letter = true := by
      rcases hletter with rfl | rfl <;> decide
    exact List.forall_mem_cons.mpr ⟨hfirst, List.forall_mem_append.mpr ⟨hsigns, hall⟩⟩

/-- A number is made of letters, digits, underscores, points and signs. -/
theorem IsNumber.forall_isNumberChar {s : List Char} (h : IsNumber s) :
    ∀ c ∈ s, isNumberChar c = true := by
  cases h with
  | @decimal first whole fraction exponent hfirst hwhole hfraction hexponent =>
      have hdigits : ∀ c ∈ first :: whole, isNumberChar c = true :=
        List.forall_mem_cons.mpr ⟨isNumberChar_of_isIdentChar (isIdentChar_of_isAsciiDigit hfirst),
          fun c hc => isNumberChar_of_isIdentChar (isIdentChar_of_isDigitOrUnderscore (hwhole c hc))⟩
      exact List.forall_mem_append.mpr ⟨List.forall_mem_append.mpr ⟨hdigits,
        hfraction.forall_isNumberChar⟩, hexponent.forall_isNumberChar⟩
  | @based base digits hbase hdigits =>
      have hbases : isNumberChar base = true := by
        rcases hbase with rfl | rfl <;> decide
      exact List.forall_mem_cons.mpr ⟨by decide, List.forall_mem_cons.mpr ⟨hbases,
        fun c hc => isNumberChar_of_isIdentChar (isIdentChar_of_isHexOrUnderscore (hdigits c hc))⟩⟩

/-- The first character of a number is a digit. -/
theorem IsNumber.head? {s : List Char} (h : IsNumber s) : s.head?.any isAsciiDigit = true := by
  cases h with
  | decimal hfirst => simpa using hfirst
  | based => rfl

/-- Where all characters pass a test, the last one does, if there is one. -/
theorem any_getLast?_of_forall {p : Char → Bool} {s : List Char} (hne : s ≠ [])
    (h : ∀ c ∈ s, p c = true) : s.getLast?.any p = true := by
  rw [List.getLast?_eq_some_getLast hne]
  exact h _ (List.getLast_mem hne)

/-- The last character of a number is a letter, a digit or an underscore. -/
theorem IsNumber.getLast? {s : List Char} (h : IsNumber s) : s.getLast?.any isIdentChar = true := by
  cases h with
  | @decimal first whole fraction exponent hfirst hwhole hfraction hexponent =>
      have hdigits : ∀ c ∈ first :: whole, isIdentChar c = true :=
        List.forall_mem_cons.mpr ⟨isIdentChar_of_isAsciiDigit hfirst,
          fun c hc => isIdentChar_of_isDigitOrUnderscore (hwhole c hc)⟩
      have hwith : (first :: whole ++ fraction).getLast?.any isIdentChar = true := by
        rcases hfraction with rfl | ⟨digits, rfl, hfraction⟩
        · rw [List.append_nil]
          exact any_getLast?_of_forall (by simp) hdigits
        · rw [List.append_cons, List.getLast?_append_of_ne_nil _ hfraction.1]
          exact any_getLast?_of_forall hfraction.1 (isIdentChar_of_isDigits hfraction)
      rcases hexponent with rfl | ⟨letter, sign, digits, rfl, -, -, hexponent⟩
      · rwa [List.append_nil]
      · rw [← List.cons_append, ← List.append_assoc, List.getLast?_append_of_ne_nil _ hexponent.1]
        exact any_getLast?_of_forall hexponent.1 (isIdentChar_of_isDigits hexponent)
  | @based base digits hbase hdigits =>
      have hbases : isIdentChar base = true := by
        rcases hbase with rfl | rfl <;> decide
      exact any_getLast?_of_forall (by simp) (List.forall_mem_cons.mpr ⟨by decide,
        List.forall_mem_cons.mpr ⟨hbases,
          fun c hc => isIdentChar_of_isHexOrUnderscore (hdigits c hc)⟩⟩)

end GodotLint.Script

namespace GodotLint.Offset

open Text Script

/-! ## What the reader takes -/

theorem drop_length_takeWhile {α : Type} (p : α → Bool) (l : List α) :
    l.drop (l.takeWhile p).length = l.dropWhile p := by
  nth_rewrite 2 [← List.takeWhile_append_dropWhile (p := p) (l := l)]
  rw [List.drop_left]

theorem any_head?_dropWhile {α : Type} (p : α → Bool) (l : List α) :
    (l.dropWhile p).head?.any p = false := by
  have hstops := List.head?_dropWhile_not p l
  cases hfirst : (l.dropWhile p).head? with
  | none => rfl
  | some c => rwa [hfirst] at hstops

/-- As much of a text as is digits. -/
theorem isDigits_takeWhile {s : List Char} (h : (s.takeWhile isAsciiDigit).length ≠ 0) :
    IsDigits (s.takeWhile isAsciiDigit) :=
  ⟨List.length_eq_zero_iff.not.mp h, fun _ hc => List.mem_takeWhile_imp hc⟩

/-- What is taken as a fraction is one, and no digit is left behind it. -/
theorem fractionLength_spec (s : List Char) : IsFraction (s.take (fractionLength s)) ∧
    (s.head?.any isAsciiDigit = false →
      (s.drop (fractionLength s)).head?.any isAsciiDigit = false) := by
  rw [fractionLength.eq_def]
  split
  · rename_i d rest
    split_ifs with hd
    · have htake : ('.' :: d :: rest).take (2 + (rest.takeWhile isAsciiDigit).length) =
          '.' :: d :: rest.takeWhile isAsciiDigit := by
        simp [Nat.add_comm 2, take_length_takeWhile]
      have hdrop : ('.' :: d :: rest).drop (2 + (rest.takeWhile isAsciiDigit).length) =
          rest.dropWhile isAsciiDigit := by
        simp [Nat.add_comm 2, drop_length_takeWhile]
      rw [htake, hdrop]
      refine ⟨.inr ⟨_, rfl, by simp, ?_⟩, fun _ => any_head?_dropWhile _ _⟩
      exact List.forall_mem_cons.mpr ⟨hd, fun _ hc => List.mem_takeWhile_imp hc⟩
    · exact ⟨.inl rfl, id⟩
  · exact ⟨.inl rfl, id⟩

/-- Behind the letter of an exponent, the digits stand at once or behind a sign. -/
theorem exists_exponentLength_eq {letter : Char} (h : (letter == 'e' || letter == 'E') = true)
    (s : List Char) : ∃ sign rest, s = sign ++ rest ∧ (sign = [] ∨ sign = ['-'] ∨ sign = ['+']) ∧
      exponentLength (letter :: s) = if (rest.takeWhile isAsciiDigit).length = 0 then 0
        else 1 + sign.length + (rest.takeWhile isAsciiDigit).length := by
  cases s with
  | nil => exact ⟨[], [], rfl, .inl rfl, by rw [exponentLength, if_pos h]; rfl⟩
  | cons c s =>
      by_cases hc : (c == '-' || c == '+') = true
      · have hsign : [c] = ['-'] ∨ [c] = ['+'] := by simpa using hc
        refine ⟨[c], s, rfl, .inr hsign, ?_⟩
        rw [exponentLength, if_pos h, if_pos hc]
        rfl
      · refine ⟨[], c :: s, rfl, .inl rfl, ?_⟩
        rw [exponentLength, if_pos h, if_neg hc]
        rfl

/-- What is taken as an exponent is one, and no digit is left behind it. -/
theorem exponentLength_spec (s : List Char) : IsExponent (s.take (exponentLength s)) ∧
    (s.head?.any isAsciiDigit = false →
      (s.drop (exponentLength s)).head?.any isAsciiDigit = false) := by
  cases s with
  | nil => exact ⟨.inl rfl, id⟩
  | cons letter s =>
      by_cases hletter : (letter == 'e' || letter == 'E') = true
      · obtain ⟨sign, rest, rfl, hsign, hlength⟩ := exists_exponentLength_eq hletter s
        rw [hlength]
        split_ifs with hdigits
        · exact ⟨.inl rfl, id⟩
        · rw [Nat.add_assoc, Nat.add_comm 1, List.take_succ_cons, List.take_length_add_append,
            List.drop_succ_cons, List.drop_length_add_append, take_length_takeWhile,
            drop_length_takeWhile]
          exact ⟨.inr ⟨letter, sign, _, rfl, by simpa using hletter, hsign,
            isDigits_takeWhile hdigits⟩, fun _ => any_head?_dropWhile _ _⟩
      · rw [exponentLength.eq_def]
        dsimp only
        rw [if_neg hletter]
        exact ⟨.inl rfl, id⟩

section number

variable {c : Char} (hc : isAsciiDigit c = true) (s : List Char)

include hc

/-- What is taken as a decimal number is one, and no digit is left behind it. -/
theorem decimalLength_spec :
    IsNumber ((c :: s).take (numberLength.decimalLength (c :: s))) ∧
      ((c :: s).drop (numberLength.decimalLength (c :: s))).head?.any isAsciiDigit = false := by
  have hfirst : isDigitOrUnderscore c = true := by rw [isDigitOrUnderscore, hc, Bool.true_or]
  have hwhole : (c :: s).takeWhile isDigitOrUnderscore = c :: s.takeWhile isDigitOrUnderscore := by
    rw [List.takeWhile_cons, if_pos hfirst]
  have hnone : ((c :: s).dropWhile isDigitOrUnderscore).head?.any isAsciiDigit = false := by
    rw [any_eq_false_iff]
    intro d hd
    have hstops := any_eq_false_iff.mp (any_head?_dropWhile isDigitOrUnderscore (c :: s)) d hd
    exact (Bool.or_eq_false_iff.mp hstops).1
  obtain ⟨hfraction, hafter⟩ := fractionLength_spec ((c :: s).dropWhile isDigitOrUnderscore)
  obtain ⟨hexponent, hlast⟩ := exponentLength_spec (((c :: s).dropWhile isDigitOrUnderscore).drop
    (fractionLength ((c :: s).dropWhile isDigitOrUnderscore)))
  rw [numberLength.decimalLength]
  simp only [List.take_add, ← List.drop_drop, take_length_takeWhile, drop_length_takeWhile]
  rw [hwhole]
  exact ⟨.decimal hc (fun _ hd => List.mem_takeWhile_imp hd) hfraction hexponent,
    hlast (hafter hnone)⟩

/-- **What is taken of a text that starts with a digit is a number**, and no digit is left behind it. -/
theorem numberLength_spec : IsNumber ((c :: s).take (numberLength (c :: s))) ∧
    ((c :: s).drop (numberLength (c :: s))).head?.any isAsciiDigit = false := by
  have hdecimal := decimalLength_spec hc s
  rw [numberLength.eq_def]
  split
  · rename_i base rest hs
    obtain ⟨rfl, rfl⟩ := List.cons.inj hs
    split_ifs with hbase
    · have htake : ('0' :: base :: rest).take (2 + (rest.takeWhile isHexOrUnderscore).length) =
          '0' :: base :: rest.takeWhile isHexOrUnderscore := by
        simp [Nat.add_comm 2, take_length_takeWhile]
      have hdrop : ('0' :: base :: rest).drop (2 + (rest.takeWhile isHexOrUnderscore).length) =
          rest.dropWhile isHexOrUnderscore := by
        simp [Nat.add_comm 2, drop_length_takeWhile]
      rw [htake, hdrop]
      refine ⟨.based (by simpa using hbase) fun _ hd => List.mem_takeWhile_imp hd, ?_⟩
      rw [any_eq_false_iff]
      intro d hd
      have hstops := any_eq_false_iff.mp (any_head?_dropWhile isHexOrUnderscore rest) d hd
      simp only [isHexOrUnderscore, Bool.or_eq_false_iff] at hstops
      exact hstops.1.1.1
    · exact hdecimal
  · exact hdecimal

end number

/-! ## One token -/

/-- What is cut out of a text is a number, and neither a word nor digits go on with it. -/
theorem IsBare.isNumber {t : NumberToken} (h : IsBare t) :
    IsNumber t.chars ∧ t.rest.head?.any isIdentChar = false := by
  obtain ⟨hdigit, hlength, -, hletter⟩ := h
  obtain ⟨c, s, hs⟩ : ∃ c s, t.chars ++ t.rest = c :: s := by
    refine List.exists_cons_of_ne_nil fun hnil => ?_
    rw [hnil] at hdigit
    cases hdigit
  have hrest : t.rest = (c :: s).drop (numberLength (c :: s)) := by
    have hparts := List.take_append_drop (numberLength (c :: s)) (c :: s)
    rw [hs] at hlength
    rw [← hlength, ← hs] at hparts
    rw [← hs]
    exact (List.append_cancel_left hparts).symm
  rw [hs] at hdigit hlength
  obtain ⟨hnumber, hnone⟩ := numberLength_spec hdigit s
  rw [← hlength] at hnumber
  rw [← hrest] at hnone
  refine ⟨hnumber, any_eq_false_iff.mpr fun d hd => ?_⟩
  have hdigits := any_eq_false_iff.mp hnone d hd
  have hletters := Bool.or_eq_false_iff.mp (any_eq_false_iff.mp hletter d hd)
  rw [isIdentChar, isAsciiAlnum, hletters.1, hdigits, hletters.2]
  rfl

/-! ## One token behind the other -/

/-- A sign goes over from what was read to the number. -/
theorem exists_sign (t : NumberToken) : ∃ passed sign, t.withSign = ⟨passed, sign ++ t.chars, t.rest⟩ ∧
    t.passed.reverse = passed.reverse ++ sign ∧ (sign = [] ∨ sign = ['-'] ∧
      (passed.dropWhile isAsciiBlank).head?.all beforeSign.contains = true) := by
  obtain ⟨passed, chars, rest⟩ := t
  rw [withSign_eq]
  cases hsign : signFollows passed with
  | false => exact ⟨passed, [], rfl, by simp, .inl rfl⟩
  | true =>
      unfold signFollows at hsign
      split at hsign
      · rename_i before
        exact ⟨before, ['-'], rfl, by simp, .inr ⟨rfl, hsign⟩⟩
      · cases hsign

/-- A sign makes a number start one byte earlier, and it ends where it did. -/
theorem withSign_span (t : NumberToken) : t.start ≤ t.withSign.start + 1 ∧
    t.withSign.start ≤ t.start ∧
      t.withSign.start + width t.withSign.chars = t.start + width t.chars := by
  obtain ⟨passed, sign, hsigned, hpassed, hsign⟩ := exists_sign t
  have hstart : t.start = width passed + width sign := by
    rw [NumberToken.start, ← width_reverse, hpassed, width_append, width_reverse]
  have hone : width sign ≤ 1 := by
    rcases hsign with rfl | ⟨rfl, -⟩ <;> decide
  rw [hsigned, hstart, NumberToken.start]
  dsimp only
  rw [width_append]
  omega

/-- A number that is cut out behind a letter, a digit or an underscore leaves a byte in between. -/
theorem width_lt_of_isBare {t : NumberToken} {passed : List Char} (ht : IsBare t)
    (hpassed : passed <:+ t.passed) (hlast : passed.head?.any isIdentChar = true) :
    width passed < width t.passed := by
  obtain ⟨gap, hgap⟩ := hpassed
  have hne : gap ≠ [] := by
    rintro rfl
    have hbefore := ht.before
    rw [← hgap, List.nil_append] at hbefore
    obtain ⟨c, hc, hident⟩ := (Option.any_eq_true _ _).mp hlast
    rw [hc, Option.any_some, hident, Bool.true_or] at hbefore
    cases hbefore
  have hpos := width_pos hne
  rw [← hgap, width_append]
  omega

/-- **The numbers of a text lie one behind the other**, signs included. -/
theorem pairwise_numberTokensFrom (count : Nat) (passed rest : List Char) :
    (numberTokensFrom count passed rest).Pairwise fun t u =>
      t.start < u.start ∧ t.start + width t.chars ≤ u.start := by
  induction count generalizing passed rest with
  | zero => exact .nil
  | succ count ih =>
      cases rest with
      | nil => exact .nil
      | cons c rest =>
          rw [numberTokensFrom_cons]
          split_ifs with hdigit
          · exact ih _ _
          · exact ih _ _
          · exact ih _ _
          · refine List.pairwise_cons.mpr ⟨fun u hu => ?_, ih _ _⟩
            obtain ⟨hform, -⟩ := numberLength_spec (by simpa using hdigit) rest
            obtain ⟨bare, rfl, hbare, hpassed, -⟩ := exists_isBare_of_mem hu
            have hlast : (((c :: rest).take (numberLength (c :: rest))).reverse ++ passed).head?.any
                isIdentChar = true := by
              obtain ⟨d, hd, hident⟩ := (Option.any_eq_true _ _).mp hform.getLast?
              rw [List.head?_append, List.head?_reverse, hd]
              exact hident
            have hlt := width_lt_of_isBare hbare hpassed hlast
            have hpos : 0 < width ((c :: rest).take (numberLength (c :: rest))) :=
              width_pos (by rintro hnil; rw [hnil] at hform; cases hform.head?)
            have hspan := withSign_span ⟨passed, (c :: rest).take (numberLength (c :: rest)),
              (c :: rest).drop (numberLength (c :: rest))⟩
            have hspan' := withSign_span bare
            rw [width_append, width_reverse] at hlt
            simp only [NumberToken.start] at hspan hspan' ⊢
            omega

/-! ## Digits that stand alone -/

section run

variable {passed gap digits after : List Char}

theorem isNumberChar_eq_false {c : Char} (h : isNumberChar c = false) :
    isIdentChar c = false ∧ c ≠ '.' ∧ c ≠ '+' ∧ c ≠ '-' := by
  simpa [isNumberChar] using h

theorem numberLength_of_head? {s : List Char} (h : ∀ c, s.head? = some c → isNumberChar c = false) :
    fractionLength s = 0 ∧ exponentLength s = 0 := by
  cases s with
  | nil => exact ⟨rfl, rfl⟩
  | cons c s =>
      obtain ⟨hident, hpoint, -, -⟩ := isNumberChar_eq_false (h c rfl)
      constructor
      · rw [fractionLength.eq_def]
        split
        · exact absurd (List.cons.inj ‹_›).1 hpoint
        · rfl
      · rw [exponentLength.eq_def]
        dsimp only
        rw [if_neg]
        intro hletter
        rcases (Bool.or_eq_true _ _).mp hletter with hletter | hletter <;>
          · rw [beq_iff_eq.mp hletter] at hident
            cases hident

/-- Digits end before something that no number is made of. -/
theorem takeWhile_digits_append (hdigits : IsDigits digits)
    (hafter : ∀ c, after.head? = some c → isNumberChar c = false) :
    (digits ++ after).takeWhile isDigitOrUnderscore = digits := by
  have hnone : after.takeWhile isDigitOrUnderscore = [] := by
    cases after with
    | nil => rfl
    | cons c after =>
        have hc : isDigitOrUnderscore c = false := by
          by_contra hpass
          have hident := isIdentChar_of_isDigitOrUnderscore (Bool.not_eq_false _ ▸ hpass)
          rw [(isNumberChar_eq_false (hafter c rfl)).1] at hident
          cases hident
        rw [List.takeWhile_cons, hc]
        rfl
  rw [List.takeWhile_append_of_pos, hnone, List.append_nil]
  intro c hc
  rw [isDigitOrUnderscore, hdigits.2 c hc, Bool.true_or]

theorem decimalLength_append (hdigits : IsDigits digits)
    (hafter : ∀ c, after.head? = some c → isNumberChar c = false) :
    numberLength.decimalLength (digits ++ after) = digits.length := by
  obtain ⟨hfraction, hexponent⟩ := numberLength_of_head? hafter
  rw [numberLength.decimalLength, takeWhile_digits_append hdigits hafter, List.drop_left, hfraction,
    Nat.add_zero, List.drop_left, hexponent, Nat.add_zero]

/-- Digits before something that no number is made of are taken up to their end. -/
theorem numberLength_append (hdigits : IsDigits digits)
    (hafter : after.head?.any isNumberChar = false) :
    numberLength (digits ++ after) = digits.length := by
  have hnone := any_eq_false_iff.mp hafter
  have hdecimal := decimalLength_append hdigits hnone
  rw [numberLength.eq_def]
  split
  · rename_i base rest hs
    -- the letter of a base would be another digit, or stand behind the digits
    obtain ⟨d, ds, rfl⟩ := List.exists_cons_of_ne_nil hdigits.1
    have hbase : isNumberChar base = false ∨ isAsciiDigit base = true := by
      have hrest : ds ++ after = base :: rest := (List.cons.inj hs).2
      cases ds with
      | nil =>
          obtain rfl : after = base :: rest := hrest
          exact .inl (hnone base rfl)
      | cons e ds =>
          obtain ⟨rfl, -⟩ := List.cons.inj hrest
          exact .inr (hdigits.2 e (by simp))
    rw [if_neg]
    · exact hdecimal
    · intro hletter
      rcases (Bool.or_eq_true _ _).mp hletter with hletter | hletter <;>
        · rw [beq_iff_eq.mp hletter] at hbase
          revert hbase
          decide
  · exact hdecimal

/-- Characters of numbers at the start of a text end before a character that is none. -/
theorem length_le_of_forall {p : Char → Bool} {n : Nat} {rest : List Char} (hne : gap ≠ [])
    (hlast : gap.getLast?.any p = false) (h : ∀ c ∈ (gap ++ rest).take n, p c = true) :
    n ≤ gap.length := by
  by_contra hn
  have hmem : gap.getLast hne ∈ (gap ++ rest).take n := by
    rw [List.take_append, List.take_of_length_le (by omega)]
    exact List.mem_append_left _ (List.getLast_mem hne)
  rw [List.getLast?_eq_some_getLast hne, Option.any_some, h _ hmem] at hlast
  cases hlast

/-- Digits between characters that no number is made of are a token when they are reached. -/
theorem numberTokensFrom_digits (count : Nat) (hdigits : IsDigits digits)
    (hbefore : passed.head?.any isNumberChar = false)
    (hafter : after.head?.any isNumberChar = false) :
    numberTokensFrom (count + 1) passed (digits ++ after) =
      ⟨passed, digits, after⟩ :: numberTokensFrom count (digits.reverse ++ passed) after := by
  have hnone := any_eq_false_iff.mp hbefore
  have hlength := numberLength_append hdigits hafter
  have hcontinues : passed.head?.any (fun c => isIdentChar c || c == '.') = false := by
    rw [any_eq_false_iff]
    intro c hc
    obtain ⟨hident, hpoint, -, -⟩ := isNumberChar_eq_false (hnone c hc)
    simp [hident, hpoint]
  have hletter : after.head?.any (fun c => isAsciiLetter c || c == '_') = false := by
    rw [any_eq_false_iff] at hafter ⊢
    intro c hc
    have hident := (isNumberChar_eq_false (hafter c hc)).1
    simp only [isIdentChar, isAsciiAlnum, Bool.or_eq_false_iff] at hident
    simp [hident]
  have hsign : signFollows passed = false := by
    unfold signFollows
    split
    · exact absurd rfl (isNumberChar_eq_false (hnone '-' rfl)).2.2.2
    · rfl
  obtain ⟨d, ds, rfl⟩ := List.exists_cons_of_ne_nil hdigits.1
  have hfound : NumberToken.withSign ⟨passed, d :: ds, after⟩ = ⟨passed, d :: ds, after⟩ := by
    rw [withSign_eq, if_neg (by simp [hsign])]
  rw [List.cons_append, numberTokensFrom_cons, ← List.cons_append, hlength, List.take_left,
    List.drop_left, hcontinues, hletter, hdigits.2 d (by simp), hfound]
  dsimp only
  rw [List.take_left, List.drop_left]
  rfl

/-- One round of the search reads one character, or some of those that numbers are made of. -/
theorem exists_subset_numberTokensFrom (count : Nat) (passed rest : List Char) (c : Char) :
    ∃ n, 0 < n ∧ (n = 1 ∨ ∀ d ∈ (c :: rest).take n, isNumberChar d = true) ∧
      numberTokensFrom count (((c :: rest).take n).reverse ++ passed) ((c :: rest).drop n) ⊆
        numberTokensFrom (count + 1) passed (c :: rest) := by
  have hwords : ∀ s : List Char, ∀ d ∈ s.takeWhile isIdentChar, isNumberChar d = true :=
    fun s d hd => isNumberChar_of_isIdentChar (List.mem_takeWhile_imp hd)
  rw [numberTokensFrom_cons]
  split_ifs with hdigit hcontinues hletter
  · exact ⟨1, Nat.one_pos, .inl rfl, List.Subset.refl _⟩
  all_goals
    replace hdigit : isAsciiDigit c = true := by simpa using hdigit
    have hpos := numberLength_pos hdigit rest
    have hnumber := (numberLength_spec hdigit rest).1.forall_isNumberChar
  · refine ⟨_, takeWhile_identChar_pos hdigit rest, .inr ?_, List.Subset.refl _⟩
    rw [take_length_takeWhile]
    exact hwords _
  · refine ⟨_, Nat.add_pos_left hpos _, .inr ?_, List.Subset.refl _⟩
    rw [List.take_add, take_length_takeWhile]
    exact List.forall_mem_append.mpr ⟨hnumber, hwords _⟩
  · exact ⟨_, hpos, .inr hnumber, List.subset_cons_self _ _⟩

/-- **Digits between characters that no number is made of are found.** -/
theorem mem_numberTokensFrom_of_run {count : Nat} (hcount : gap.length < count)
    (hdigits : IsDigits digits) (hbefore : (gap.reverse ++ passed).head?.any isNumberChar = false)
    (hafter : after.head?.any isNumberChar = false) :
    ⟨gap.reverse ++ passed, digits, after⟩ ∈
      numberTokensFrom count passed (gap ++ (digits ++ after)) := by
  induction count generalizing passed gap with
  | zero => omega
  | succ count ih =>
      cases gap with
      | nil =>
          replace hbefore : passed.head?.any isNumberChar = false := hbefore
          rw [List.nil_append, numberTokensFrom_digits count hdigits hbefore hafter]
          exact List.mem_cons_self
      | cons g gap =>
          obtain ⟨n, hpos, hread, hsubset⟩ :=
            exists_subset_numberTokensFrom count passed (gap ++ (digits ++ after)) g
          -- the last character before the digits ends whatever is read of numbers
          have hn : n ≤ (g :: gap).length := by
            rcases hread with rfl | hread
            · simp
            · have hlast : (g :: gap).getLast?.any isNumberChar = false := by
                rw [List.head?_append, List.head?_reverse, List.getLast?_cons] at hbefore
                rwa [List.getLast?_cons]
              exact length_le_of_forall (by simp) hlast hread
          have hpassed : ((g :: gap).drop n).reverse ++ (((g :: gap).take n).reverse ++ passed) =
              (g :: gap).reverse ++ passed := by
            rw [← List.append_assoc, ← List.reverse_append, List.take_append_drop]
          have hless : ((g :: gap).drop n).length < count := by
            rw [List.length_drop]
            omega
          have hrun := @ih (((g :: gap).take n).reverse ++ passed) ((g :: gap).drop n) hless
          rw [hpassed] at hrun
          rw [← List.cons_append, List.take_append_of_le_length hn,
            List.drop_append_of_le_length hn] at hsubset
          exact hsubset (hrun hbefore)

end run

/-! ## The numbers among the bytes -/

/-- A number is at a byte offset of a text, with its sign if it has one. It continues no word and follows
no point, and no word continues it. Before a sign stands nothing but blanks, up to the start of the text or
to a byte after which a minus subtracts nothing. -/
structure IsNumberAt (text : List Char) (start : Nat) (sign number : List Char) : Prop where
  here : slice text start (start + width (sign ++ number)) = .ok (sign ++ number)
  form : IsNumber number
  unary : sign = [] ∨ sign = ['-'] ∧ (((encode text).take start).reverse.find?
    fun b => !onByte isAsciiBlank b).all (onByte beforeSign.contains) = true
  before : 0 < start + width sign → ∀ b, (encode text)[start + width sign - 1]? = some b →
    onByte (fun c => isIdentChar c || c == '.') b = false
  after : ∀ b, (encode text)[start + width (sign ++ number)]? = some b → isWordByte b = false

/-- The numbers of a text with their byte offsets: they lie one behind the other, and digits between
bytes that no number is made of are among them. -/
structure IsNumbering (text : List Char) (tokens : List (Nat × List Char)) : Prop where
  numbers : ∀ t ∈ tokens, ∃ sign number, t.2 = sign ++ number ∧ IsNumberAt text t.1 sign number
  apart : tokens.Pairwise fun t u => t.1 < u.1 ∧ t.1 + width t.2 ≤ u.1
  runs : ∀ before digits after, encode text = before ++ (encode digits ++ after) → IsDigits digits →
    before.getLast?.any (onByte isNumberChar) = false →
      after.head?.any (onByte isNumberChar) = false → (before.length, digits) ∈ tokens

section bytes

variable {p : Char → Bool} (hp : OfAscii p) (u v : List Char)

include hp

theorem forall_before_encode (h : u.getLast?.any p = false) : 0 < width u → ∀ b,
    (encode (u ++ v))[width u - 1]? = some b → onByte p b = false := by
  intro hpos b hb
  rw [encode_append, ← length_encode, getElem?_pred_length_append _ (by rwa [length_encode])] at hb
  exact any_eq_false_iff.mp (any_getLast?_encode hp u ▸ h) b hb

theorem forall_at_encode (h : v.head?.any p = false) : ∀ b,
    (encode (u ++ v))[width u]? = some b → onByte p b = false := by
  intro b hb
  rw [encode_append, ← length_encode, getElem?_length_append] at hb
  exact any_eq_false_iff.mp (any_head?_encode hp v ▸ h) b hb

end bytes

theorem exists_isNumberAt {text : List Char} {t : NumberToken} (ht : IsBare t) (hcut : IsCut text t) :
    ∃ sign number, t.withSign.chars = sign ++ number ∧
      IsNumberAt text t.withSign.start sign number := by
  obtain ⟨passed, sign, hsigned, hpassed, hsign⟩ := exists_sign t
  have hcontinues : OfAscii fun c => isIdentChar c || c == '.' :=
    .or ofAscii_identChar (ofAscii_eq (by decide))
  have htext : text = passed.reverse ++ sign ++ (t.chars ++ t.rest) := by
    rw [← hpassed, ← List.append_assoc, hcut]
  have hfirst : width passed + width sign = width (passed.reverse ++ sign) := by
    rw [width_append, width_reverse]
  rw [hsigned]
  refine ⟨sign, t.chars, rfl, ?_, ht.isNumber.1, hsign.imp_right ?_, ?_, ?_⟩
  all_goals dsimp only [NumberToken.start]
  · have hslice := slice_append passed.reverse (sign ++ t.chars) t.rest
    rw [width_append, width_reverse] at hslice
    rw [htext, ← hslice]
    simp
  · rintro ⟨rfl, hunary⟩
    refine ⟨rfl, ?_⟩
    have htake : (encode text).take (width passed) = encode passed.reverse := by
      rw [htext, List.append_assoc, encode_append, ← width_reverse, ← length_encode, List.take_left]
    rw [htake, find?_reverse_encode (ofAscii_contains (by simp [beforeSign])), hunary]
  · rw [hfirst, htext]
    refine forall_before_encode hcontinues _ _ ?_
    rw [← hpassed, List.getLast?_reverse]
    exact ht.before
  · rw [width_append, ← Nat.add_assoc, hfirst, ← width_append, htext, ← List.append_assoc]
    exact forall_at_encode ofAscii_identChar _ _ ht.isNumber.2

theorem ofAscii_numberChar : OfAscii isNumberChar :=
  .or ofAscii_identChar (ofAscii_contains (by simp))

/-- **The loop over the bytes ends with the numbers of the text.** -/
theorem numbers_isNumbering (text : List Char) :
    numbers text = .ok ((numberTokens text).map fun t => (t.start, t.chars)) ∧
      IsNumbering text ((numberTokens text).map fun t => (t.start, t.chars)) := by
  refine ⟨numbers_eq text, ?_, ?_, ?_⟩
  · intro t ht
    obtain ⟨t, hmem, rfl⟩ := List.mem_map.mp ht
    obtain ⟨bare, rfl, hbare, -, hcut⟩ := exists_isBare_of_mem hmem
    exact exists_isNumberAt hbare hcut
  · exact List.pairwise_map.mpr (pairwise_numberTokensFrom text.length [] text)
  · intro before digits after hbytes hdigits hbefore hafter
    have hascii : ∀ c ∈ digits, c.toNat < 0x80 := fun c hc => ofAscii_digit c (hdigits.2 c hc)
    obtain ⟨u, v, rfl, rfl, rfl⟩ := exists_of_encode_eq_append hascii hdigits.1 hbytes
    rw [any_getLast?_encode ofAscii_numberChar] at hbefore
    rw [any_head?_encode ofAscii_numberChar] at hafter
    have hpos : 0 < digits.length := List.length_pos_of_ne_nil hdigits.1
    have hfound := @mem_numberTokensFrom_of_run [] u digits v (u ++ (digits ++ v)).length
      (by simp only [List.length_append]; omega) hdigits (by simpa using hbefore) hafter
    refine List.mem_map.mpr ⟨_, hfound, ?_⟩
    simp [NumberToken.start, width_reverse, length_encode]

example : (numberTokens "a = -1_0.5e-3 - 0xFF + v2".toList).map (fun t => (t.start, t.chars)) =
    [(4, "-1_0.5e-3".toList), (16, "0xFF".toList)] := by decide

end GodotLint.Offset
