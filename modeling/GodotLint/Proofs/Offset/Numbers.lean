import GodotLint.Proofs.Offset.Bytes

/-!
# Numbers by offsets

`numberTokens` takes a text apart character by character. The same numbers are found by an index into
the bytes of the text (`numbers`), which looks at single bytes before and after the index, goes back over
a minus sign, and cuts each number out of the text in the end. All these places are there, between
characters, and the loop ends (`numbers_eq`); around each number that is found, the text can be cut again
(`isSubscript_eq`).
-/

namespace GodotLint.Offset

open Text Script

/-! ## The loop over the bytes -/

/-- The index just past the fraction that may start at an index. -/
def fractionEnd (bytes : List UInt8) (index : Nat) : Checked Nat := do
  if ← testAt bytes (· == '.') index <&&> testAt bytes isAsciiDigit (index + 1) then
    skipWhile bytes isAsciiDigit (index + 1)
  else return index

/-- The index just past the digits at an index, or another one if there are none. -/
def digitsEnd (bytes : List UInt8) (digits otherwise : Nat) : Checked Nat := do
  if ← testAt bytes isAsciiDigit digits then skipWhile bytes isAsciiDigit digits
  else return otherwise

/-- The index just past the exponent that may start at an index. -/
def exponentEnd (bytes : List UInt8) (index : Nat) : Checked Nat := do
  if ← testAt bytes (fun c => c == 'e' || c == 'E') index then
    let signed ← testAt bytes (fun c => c == '-' || c == '+') (index + 1)
    digitsEnd bytes (if signed then index + 2 else index + 1) index
  else return index

/-- The index just past the decimal number that starts at an index. -/
def decimalEnd (bytes : List UInt8) (index : Nat) : Checked Nat := do
  let whole ← skipWhile bytes isDigitOrUnderscore index
  let fraction ← fractionEnd bytes whole
  exponentEnd bytes fraction

/-- The index just past the number that starts at an index. -/
def numberEnd (bytes : List UInt8) (index : Nat) : Checked Nat := do
  if ← testAt bytes (· == '0') index <&&>
      testAt bytes (fun c => c == 'x' || c == 'b') (index + 1) then
    skipWhile bytes isHexOrUnderscore (index + 2)
  else decimalEnd bytes index

/-- Whether the byte before an index is a minus that is a sign. -/
def isSigned (bytes : List UInt8) (start : Nat) : Checked Bool := do
  if start = 0 then return false
  else if onByte (· == '-') (← row bytes (start - 1)) then
    let before ← rows bytes 0 (start - 1)
    return (before.reverse.find? fun b => !onByte isAsciiBlank b).all (onByte beforeSign.contains)
  else return false

/-- Whether the byte before an index belongs to a word or is a point. -/
def continuesAt (bytes : List UInt8) (index : Nat) : Checked Bool :=
  testBefore bytes (fun c => isIdentChar c || c == '.') index

/-- The numbers that start at an index or later, each with its byte offset. -/
def numbersFrom (text : List Char) (bytes : List UInt8) (index : Nat) :
    Checked (List (Nat × List Char)) :=
  if _h : index < bytes.length then do
    if !onByte isAsciiDigit (← row bytes index) then numbersFrom text bytes (index + 1)
    else if ← continuesAt bytes index then
      let next ← skipWhile bytes isIdentChar index
      if _h : index < next then numbersFrom text bytes next else throw .endless
    else
      let stop ← numberEnd bytes index
      if ← testAt bytes (fun c => isAsciiLetter c || c == '_') stop then
        let next ← skipWhile bytes isIdentChar stop
        if _h : index < next then numbersFrom text bytes next else throw .endless
      else
        let start := if ← isSigned bytes index then index - 1 else index
        let token ← slice text start stop
        if _h : index < stop then return (start, token) :: (← numbersFrom text bytes stop)
        else throw .endless
  else return []
termination_by bytes.length - index

/-- The numbers in a text, each with its byte offset. -/
def numbers (text : List Char) : Checked (List (Nat × List Char)) :=
  numbersFrom text (encode text) 0

/-- Whether a number at an offset of a text is the whole of a subscript. -/
def isSubscript (text : List Char) (start : Nat) (number : List Char) : Checked Bool := do
  let before ← slice text 0 start
  let after ← slice text (start + width number) (width text)
  return (trimEnd before).getLast? == some '[' && (trimStart after).head? == some ']'

/-! ## One number -/

theorem ofAscii_digitOrUnderscore : OfAscii isDigitOrUnderscore :=
  .or ofAscii_digit (ofAscii_eq (by decide))

theorem ofAscii_hexOrUnderscore : OfAscii isHexOrUnderscore :=
  .or (.or (.or ofAscii_digit (ofAscii_range (by decide))) (ofAscii_range (by decide)))
    (ofAscii_eq (by decide))

/-- As much of a text as passes a test is what a loop over it takes. -/
theorem take_length_takeWhile {α : Type} (p : α → Bool) (l : List α) :
    l.take (l.takeWhile p).length = l.takeWhile p :=
  (List.prefix_iff_eq_take.mp (List.takeWhile_prefix p)).symm

theorem fractionEnd_encode (u v : List Char) :
    fractionEnd (encode (u ++ v)) (width u) = .ok (width (u ++ v.take (fractionLength v))) := by
  rw [fractionEnd, testAt_encode (ofAscii_eq (by decide))]
  match v with
  | [] => simp [fractionLength]
  | c :: v =>
      by_cases hpoint : c = '.'
      · subst hpoint
        have hnext := width_append_of_ascii u (c := '.') (by decide)
        have hdigit := testAt_encode ofAscii_digit (u ++ ['.']) v
        have hskip := skipWhile_encode ofAscii_digit (u ++ ['.']) v
        rw [hnext, ← List.append_cons] at hdigit hskip
        cases v with
        | nil => simp [hdigit, fractionLength]
        | cons d v =>
            cases hd : isAsciiDigit d <;>
              simp [hdigit, hskip, hd, fractionLength, Nat.add_comm 2, take_length_takeWhile]
      · have hfirst : (c == '.') = false := by simp [hpoint]
        have hlength : fractionLength (c :: v) = 0 := by
          rw [fractionLength.eq_def]
          split
          · simp_all
          · rfl
        simp [hfirst, hlength]

theorem digitsEnd_encode (u v : List Char) (otherwise : Nat) :
    digitsEnd (encode (u ++ v)) (width u) otherwise =
      .ok (if (v.takeWhile isAsciiDigit).length = 0 then otherwise
        else width (u ++ v.takeWhile isAsciiDigit)) := by
  rw [digitsEnd, testAt_encode ofAscii_digit]
  cases v with
  | nil => simp
  | cons d v => cases hd : isAsciiDigit d <;> simp [hd, skipWhile_encode ofAscii_digit]

/-- What digits after other text make of an index, told by how much is taken. -/
theorem width_append_take (u w x : List Char) :
    (if (x.takeWhile isAsciiDigit).length = 0 then width u
      else width (u ++ w ++ x.takeWhile isAsciiDigit)) =
      width (u ++ (w ++ x).take (if (x.takeWhile isAsciiDigit).length = 0 then 0
        else w.length + (x.takeWhile isAsciiDigit).length)) := by
  split_ifs
  · simp
  · rw [List.take_length_add_append, take_length_takeWhile, List.append_assoc]

theorem exponentEnd_encode (u v : List Char) :
    exponentEnd (encode (u ++ v)) (width u) = .ok (width (u ++ v.take (exponentLength v))) := by
  have hletter : OfAscii fun c => c == 'e' || c == 'E' :=
    .or (ofAscii_eq (by decide)) (ofAscii_eq (by decide))
  have hsign : OfAscii fun c => c == '-' || c == '+' :=
    .or (ofAscii_eq (by decide)) (ofAscii_eq (by decide))
  rw [exponentEnd, testAt_encode hletter]
  match v with
  | [] => simp [exponentLength]
  | e :: v =>
      cases he : (e == 'e' || e == 'E') with
      | false => simp [he, exponentLength]
      | true =>
          have hnext := width_append_of_ascii u (hletter e he)
          have hsigned := testAt_encode hsign (u ++ [e]) v
          have hdigits := digitsEnd_encode (u ++ [e]) v (width u)
          rw [hnext, ← List.append_cons] at hsigned hdigits
          rw [width_append_take] at hdigits
          rw [List.head?_cons, Option.any_some, he, ok_bind, if_pos rfl, hsigned, ok_bind]
          match v with
          | [] =>
              rw [if_neg (by simp), hdigits, exponentLength, if_pos he]
              rfl
          | c :: v =>
              rw [exponentLength, if_pos he, List.head?_cons, Option.any_some]
              cases hc : (c == '-' || c == '+') with
              | false =>
                  rw [if_neg (by simp), hdigits]
                  simp
              | true =>
                  have hboth : width (u ++ [e, c]) = width u + 2 := by
                    rw [List.append_cons, width_append_of_ascii _ (hsign c hc), hnext]
                  have hdigits' := digitsEnd_encode (u ++ [e, c]) v (width u)
                  rw [width_append_take, hboth] at hdigits'
                  rw [if_pos rfl]
                  simpa using hdigits'

/-- Going on after a part of a text, an index is that of the text before it and the next part. -/
theorem width_take_add (u v : List Char) (m n : Nat) :
    width (u ++ v.take m ++ (v.drop m).take n) = width (u ++ v.take (m + n)) := by
  rw [List.take_add, List.append_assoc]

theorem decimalEnd_encode (u v : List Char) :
    decimalEnd (encode (u ++ v)) (width u) =
      .ok (width (u ++ v.take (numberLength.decimalLength v))) := by
  have hcut : ∀ n, u ++ v = u ++ v.take n ++ v.drop n := by simp
  have hfraction : ∀ n, fractionEnd (encode (u ++ v)) (width (u ++ v.take n)) =
      .ok (width (u ++ v.take (n + fractionLength (v.drop n)))) := by
    intro n
    rw [hcut n, fractionEnd_encode, width_take_add]
  have hexponent : ∀ n, exponentEnd (encode (u ++ v)) (width (u ++ v.take n)) =
      .ok (width (u ++ v.take (n + exponentLength (v.drop n)))) := by
    intro n
    rw [hcut n, exponentEnd_encode, width_take_add]
  rw [decimalEnd, skipWhile_encode ofAscii_digitOrUnderscore, ok_bind,
    ← take_length_takeWhile isDigitOrUnderscore v, hfraction, ok_bind, hexponent]
  rfl

theorem numberEnd_encode (u v : List Char) :
    numberEnd (encode (u ++ v)) (width u) = .ok (width (u ++ v.take (numberLength v))) := by
  have hbase : OfAscii fun c => c == 'x' || c == 'b' :=
    .or (ofAscii_eq (by decide)) (ofAscii_eq (by decide))
  have hdecimal := decimalEnd_encode u v
  rw [numberEnd, testAt_encode (ofAscii_eq (by decide)), hdecimal]
  match v with
  | [] => simp [numberLength]
  | z :: v =>
      by_cases hz : z = '0'
      · subst hz
        have hnext := width_append_of_ascii u (c := '0') (by decide)
        have hmark := testAt_encode hbase (u ++ ['0']) v
        rw [hnext, ← List.append_cons] at hmark
        rw [List.head?_cons, Option.any_some, beq_self_eq_true, true_andM, hmark]
        match v with
        | [] => simp [numberLength]
        | c :: v =>
            cases hc : (c == 'x' || c == 'b') with
            | false => simp [hc, numberLength]
            | true =>
                have hboth : width (u ++ ['0', c]) = width u + 2 := by
                  rw [List.append_cons, width_append_of_ascii _ (hbase c hc), hnext]
                have hskip := skipWhile_encode ofAscii_hexOrUnderscore (u ++ ['0', c]) v
                rw [hboth] at hskip
                simpa [hc, numberLength, take_length_takeWhile, Nat.add_comm 2] using hskip
      · have hfirst : (z == '0') = false := by simp [hz]
        have hlength : numberLength (z :: v) = numberLength.decimalLength (z :: v) := by
          rw [numberLength.eq_def]
          split
          · simp_all
          · rfl
        simp [hfirst, hlength]

/-! ## What stands before a number -/

theorem continuesAt_encode (passed v : List Char) :
    continuesAt (encode (passed.reverse ++ v)) (width passed.reverse) =
      .ok (passed.head?.any fun c => isIdentChar c || c == '.') := by
  have hp : OfAscii fun c => isIdentChar c || c == '.' :=
    .or ofAscii_identChar (ofAscii_eq (by decide))
  rw [continuesAt, testBefore_encode hp, List.getLast?_reverse]

/-- The nearest byte that is not blank before a place is one of the nearest character that is not. -/
theorem find?_reverse_encode {p : Char → Bool} (hp : OfAscii p) (passed : List Char) :
    ((encode passed.reverse).reverse.find? fun b => !onByte isAsciiBlank b).all (onByte p) =
      (passed.dropWhile isAsciiBlank).head?.all p := by
  have hblank : OfAscii isAsciiBlank :=
    .or (.or (.or (.or (ofAscii_eq (by decide)) (ofAscii_eq (by decide))) (ofAscii_eq (by decide)))
      (ofAscii_eq (by decide))) (ofAscii_eq (by decide))
  induction passed with
  | nil => rfl
  | cons c passed ih =>
      have hbytes : (encode (c :: passed).reverse).reverse =
          (String.utf8EncodeChar c).reverse ++ (encode passed.reverse).reverse := by
        rw [List.reverse_cons, encode_append, List.reverse_append, encode_cons]
        simp [encode]
      rw [hbytes, List.find?_append, List.dropWhile_cons]
      cases hc : isAsciiBlank c with
      | true =>
          have hnone : (String.utf8EncodeChar c).reverse.find? (fun b => !onByte isAsciiBlank b) =
              none := by
            rw [List.find?_eq_none]
            intro b hb
            rw [onByte_of_mem hblank (List.mem_reverse.mp hb), hc]
            decide
          rw [hnone, Option.none_or, ih, if_pos rfl]
      | false =>
          obtain ⟨b, bs, hreverse⟩ := List.exists_cons_of_ne_nil
            (List.reverse_ne_nil_iff.mpr (utf8EncodeChar_ne_nil c))
          have hb : b ∈ String.utf8EncodeChar c := by
            rw [← List.mem_reverse, hreverse]
            simp
          rw [hreverse, List.find?_cons, onByte_of_mem hblank hb, hc]
          simp [onByte_of_mem hp hb]

/-- Whether a minus stands before a number, given what was read, and is a sign. -/
def signFollows : List Char → Bool
  | '-' :: before => (before.dropWhile isAsciiBlank).head?.all beforeSign.contains
  | _ => false

theorem withSign_eq (t : NumberToken) : t.withSign =
    if signFollows t.passed then { t with passed := t.passed.drop 1, chars := '-' :: t.chars }
    else t := by
  rw [NumberToken.withSign]
  split
  · rename_i before hpassed
    rw [hpassed, signFollows]
    cases before.dropWhile isAsciiBlank <;> rfl
  · rename_i hpassed
    have hsign : signFollows t.passed = false := by
      unfold signFollows
      split
      · exact absurd ‹_› (hpassed _)
      · rfl
    rw [hsign]
    rfl

theorem isSigned_encode (passed v : List Char) :
    isSigned (encode (passed.reverse ++ v)) (width passed.reverse) = .ok (signFollows passed) := by
  cases passed with
  | nil => rfl
  | cons c before =>
      have hpos : width (before.reverse ++ [c]) ≠ 0 := (width_pos (by simp)).ne'
      have hlast := onByte_last (ofAscii_eq (d := '-') (by decide)) before.reverse v c
      obtain ⟨b, hrow, hb⟩ : ∃ b, row (encode (before.reverse ++ [c] ++ v))
          (width (before.reverse ++ [c]) - 1) = .ok b ∧ onByte (· == '-') b = (c == '-') := by
        cases hrow : row (encode (before.reverse ++ [c] ++ v)) (width (before.reverse ++ [c]) - 1) with
        | ok b =>
            rw [hrow] at hlast
            exact ⟨b, rfl, Except.ok.inj hlast⟩
        | error e =>
            rw [hrow] at hlast
            cases hlast
      rw [List.reverse_cons, isSigned, if_neg hpos, hrow, ok_bind, hb]
      by_cases hc : c = '-'
      · subst hc
        have hstart : width (before.reverse ++ ['-']) - 1 = (encode before.reverse).length := by
          rw [width_append_of_ascii _ (by decide), Nat.add_sub_cancel, length_encode]
        have hrows : rows (encode (before.reverse ++ ['-'] ++ v)) 0 (encode before.reverse).length =
            .ok (encode before.reverse) := by
          rw [List.append_assoc, encode_append, rows, if_pos ⟨Nat.zero_le _, by simp⟩,
            List.take_left, List.drop_zero]
        have hbefore : OfAscii beforeSign.contains := ofAscii_contains (by simp [beforeSign])
        rw [if_pos (by decide), hstart, hrows, ok_bind, find?_reverse_encode hbefore]
        rfl
      · rw [if_neg (by simpa using hc), signFollows.eq_def]
        split
        · simp_all
        · rfl

/-! ## All numbers -/

theorem width_reverse (s : List Char) : width s.reverse = width s := by
  induction s with
  | nil => rfl
  | cons c s ih => simp [ih, Nat.add_comm]

theorem numberLength_pos {c : Char} (h : isAsciiDigit c = true) (s : List Char) :
    0 < numberLength (c :: s) := by
  have hwhole : 0 < numberLength.decimalLength (c :: s) := by
    rw [numberLength.decimalLength, List.takeWhile_cons, if_pos (by simp [isDigitOrUnderscore, h])]
    simp only [List.length_cons]
    omega
  rw [numberLength.eq_def]
  split
  · split_ifs
    · omega
    · exact hwhole
  · exact hwhole

/-- A digit is a character of a word. -/
theorem takeWhile_identChar_pos {c : Char} (h : isAsciiDigit c = true) (s : List Char) :
    0 < ((c :: s).takeWhile isIdentChar).length := by
  rw [List.takeWhile_cons, if_pos (by simp [isIdentChar, isAsciiAlnum, h])]
  exact Nat.succ_pos _

/-- A token lies where it is cut out of the text. -/
def IsCut (text : List Char) (t : NumberToken) : Prop := t.passed.reverse ++ t.chars ++ t.rest = text

theorem IsCut.withSign {text : List Char} {t : NumberToken} (h : IsCut text t) :
    IsCut text t.withSign := by
  rw [NumberToken.withSign]
  split
  · rename_i before hpassed
    dsimp only
    split_ifs
    · simpa [IsCut, hpassed] using h
    · exact h
  · exact h

/-- A number is cut out from its sign on. -/
theorem slice_withSign {text : List Char} {t : NumberToken} (h : IsCut text t) :
    slice text (if signFollows t.passed then t.start - 1 else t.start)
      (width (t.passed.reverse ++ t.chars)) = .ok t.withSign.chars ∧
    (if signFollows t.passed then t.start - 1 else t.start) = t.withSign.start := by
  obtain ⟨passed, chars, rest⟩ := t
  subst h
  rw [withSign_eq, NumberToken.start]
  cases hsign : signFollows passed with
  | false => exact ⟨by simpa [width_reverse] using slice_append passed.reverse chars rest, rfl⟩
  | true =>
      obtain ⟨before, rfl⟩ : ∃ before, passed = '-' :: before := by
        unfold signFollows at hsign
        split at hsign
        · exact ⟨_, rfl⟩
        · cases hsign
      have hstart : width ('-' :: before) - 1 = width before.reverse := by
        rw [width_cons, width_reverse]
        exact Nat.add_sub_cancel_left ..
      have hslice := slice_append before.reverse ('-' :: chars) rest
      refine ⟨?_, ?_⟩
      · rw [if_pos rfl, if_pos rfl, hstart]
        simpa using hslice
      · rw [if_pos rfl, if_pos rfl, hstart, width_reverse]
        rfl

/-- One round of the search: some characters are passed, or a number is found and passed. -/
theorem numberTokensFrom_cons (count : Nat) (passed rest : List Char) (c : Char) :
    let s := c :: rest
    let go (n : Nat) := numberTokensFrom count ((s.take n).reverse ++ passed) (s.drop n)
    let n := numberLength s
    numberTokensFrom (count + 1) passed s =
      if !isAsciiDigit c then go 1
      else if passed.head?.any fun c => isIdentChar c || c == '.' then
        go (s.takeWhile isIdentChar).length
      else if (s.drop n).head?.any fun d => isAsciiLetter d || d == '_' then
        go (n + ((s.drop n).takeWhile isIdentChar).length)
      else NumberToken.withSign ⟨passed, s.take n, s.drop n⟩ :: go n := by
  have hnil : ∀ u, numberTokensFrom count u [] = [] := by
    intro u
    cases count <;> rfl
  intro s go n
  dsimp only [s, go, n]
  rw [numberTokensFrom.eq_def]
  dsimp only
  cases (c :: rest).drop (numberLength (c :: rest)) <;> cases passed <;> simp [hnil]

/-- What is cut out of a text where a digit is reached that continues no word and follows no point, if
neither a letter nor an underscore follows. -/
structure IsBare (t : NumberToken) : Prop where
  digit : (t.chars ++ t.rest).head?.any isAsciiDigit = true
  length : t.chars = (t.chars ++ t.rest).take (numberLength (t.chars ++ t.rest))
  before : t.passed.head?.any (fun c => isIdentChar c || c == '.') = false
  after : t.rest.head?.any (fun d => isAsciiLetter d || d == '_') = false

/-- Each token was cut out behind what was read already, and has its sign then. -/
theorem exists_isBare_of_mem {t : NumberToken} {count : Nat} {passed rest : List Char}
    (h : t ∈ numberTokensFrom count passed rest) : ∃ bare, t = bare.withSign ∧ IsBare bare ∧
      passed <:+ bare.passed ∧ IsCut (passed.reverse ++ rest) bare := by
  induction count generalizing passed rest with
  | zero => simp [numberTokensFrom] at h
  | succ count ih =>
      -- what is read of the rest goes over to what is passed
      have hgo : ∀ n, t ∈ numberTokensFrom count ((rest.take n).reverse ++ passed) (rest.drop n) →
          ∃ bare, t = bare.withSign ∧ IsBare bare ∧ passed <:+ bare.passed ∧
            IsCut (passed.reverse ++ rest) bare := by
        intro n ht
        obtain ⟨bare, rfl, hbare, hpassed, hcut⟩ := ih ht
        exact ⟨bare, rfl, hbare, (List.suffix_append _ _).trans hpassed, by simpa using hcut⟩
      cases rest with
      | nil => simp [numberTokensFrom] at h
      | cons c rest =>
          rw [numberTokensFrom_cons] at h
          split_ifs at h with hdigit hcontinues hletter
          · exact hgo _ h
          · exact hgo _ h
          · exact hgo _ h
          · rcases List.mem_cons.mp h with rfl | h
            · refine ⟨_, rfl, ⟨?_, ?_, by simpa using hcontinues, by simpa using hletter⟩,
                List.suffix_rfl, by simp [IsCut]⟩
              · rw [List.take_append_drop]
                simpa using hdigit
              · rw [List.take_append_drop]
            · exact hgo _ h

theorem isCut_of_mem_numberTokensFrom {t : NumberToken} {count : Nat} {passed rest : List Char}
    (h : t ∈ numberTokensFrom count passed rest) : IsCut (passed.reverse ++ rest) t := by
  obtain ⟨bare, rfl, -, -, hcut⟩ := exists_isBare_of_mem h
  exact hcut.withSign

/-- Over a character that is no digit, the loop goes byte by byte. -/
theorem numbersFrom_skip (text u v : List Char) {c : Char} (h : isAsciiDigit c = false) :
    numbersFrom text (encode (u ++ c :: v)) (width u) =
      numbersFrom text (encode (u ++ c :: v)) (width (u ++ [c])) := by
  have hsteps : ∀ k ≤ c.utf8Size, numbersFrom text (encode (u ++ c :: v)) (width u) =
      numbersFrom text (encode (u ++ c :: v)) (width u + k) := by
    intro k
    induction k with
    | zero => exact fun _ => rfl
    | succ k ih =>
        intro hk
        obtain ⟨b, hb, hrow⟩ := exists_row_encode u c v hk
        have hlt : width u + k < (encode (u ++ c :: v)).length := by
          simp only [length_encode, width_append, width_cons]
          omega
        rw [ih (by omega), numbersFrom, dif_pos hlt, hrow, ok_bind, onByte_of_mem ofAscii_digit hb, h]
        rfl
  simpa using hsteps _ le_rfl

/-- One round of the loop at a digit: it goes on behind some characters, with a number or without. -/
theorem numbersFrom_digit (passed rest : List Char) {c : Char} (hdigit : isAsciiDigit c = true) :
    let s := c :: rest
    let text := passed.reverse ++ s
    let go (n : Nat) := numbersFrom text (encode text) (width (passed.reverse ++ s.take n))
    let n := numberLength s
    numbersFrom text (encode text) (width passed.reverse) =
      if passed.head?.any fun c => isIdentChar c || c == '.' then
        go (s.takeWhile isIdentChar).length
      else if (s.drop n).head?.any fun d => isAsciiLetter d || d == '_' then
        go (n + ((s.drop n).takeWhile isIdentChar).length)
      else do
        let t := NumberToken.withSign ⟨passed, s.take n, s.drop n⟩
        return (t.start, t.chars) :: (← go n) := by
  intro s text go n
  have hword : OfAscii fun d => isAsciiLetter d || d == '_' :=
    .or ofAscii_letter (ofAscii_eq (by decide))
  have hwidth : ∀ m, 0 < m → width passed.reverse < width (passed.reverse ++ s.take m) := by
    intro m hm
    have hpos : 0 < width (s.take m) := width_pos (by simp [s, hm.ne'])
    rw [width_append]
    omega
  have hlt : width passed.reverse < (encode text).length := by
    have hpos : 0 < width s := width_pos (by simp [s])
    simp only [text, length_encode, width_append]
    omega
  have hn : 0 < n := numberLength_pos hdigit rest
  have hcut : text = passed.reverse ++ s.take n ++ s.drop n := by simp [text]
  obtain ⟨b, hb, hrow⟩ := exists_row_encode passed.reverse c rest c.utf8Size_pos
  have hbyte : row (encode text) (width passed.reverse) = .ok b := hrow
  have hcontinued : continuesAt (encode text) (width passed.reverse) = _ := continuesAt_encode passed s
  rw [numbersFrom, dif_pos hlt, hbyte, ok_bind, onByte_of_mem ofAscii_digit hb, hdigit,
    if_neg (by simp), hcontinued, ok_bind]
  split_ifs with hcontinues hletter
  · have hskip : skipWhile (encode text) isIdentChar (width passed.reverse) = _ :=
      skipWhile_encode ofAscii_identChar passed.reverse s
    rw [← take_length_takeWhile isIdentChar s] at hskip
    rw [hskip, ok_bind, dif_pos (hwidth _ (takeWhile_identChar_pos hdigit rest))]
  all_goals
    have hend : numberEnd (encode text) (width passed.reverse) = _ :=
      numberEnd_encode passed.reverse s
    have htest : testAt (encode text) (fun d => isAsciiLetter d || d == '_')
        (width (passed.reverse ++ s.take n)) =
          .ok ((s.drop n).head?.any fun d => isAsciiLetter d || d == '_') := by
      rw [hcut, testAt_encode hword]
    rw [hend, ok_bind, htest, ok_bind]
  · have hskip : skipWhile (encode text) isIdentChar (width (passed.reverse ++ s.take n)) =
        .ok (width (passed.reverse ++ s.take (n + ((s.drop n).takeWhile isIdentChar).length))) := by
      rw [hcut, skipWhile_encode ofAscii_identChar, ← take_length_takeWhile isIdentChar (s.drop n),
        width_take_add, take_length_takeWhile]
    rw [if_pos hletter, hskip, ok_bind, dif_pos (hwidth _ (by omega))]
  · have hsigned : isSigned (encode text) (width passed.reverse) = _ := isSigned_encode passed s
    obtain ⟨hslice, hstart⟩ := slice_withSign (t := ⟨passed, s.take n, s.drop n⟩) hcut.symm
    rw [NumberToken.start, ← width_reverse] at hslice hstart
    rw [if_neg hletter, hsigned, ok_bind]
    dsimp only
    rw [hslice, ok_bind, dif_pos (hwidth _ hn), hstart]

theorem numbersFrom_encode {count : Nat} {passed rest : List Char} (hcount : rest.length ≤ count) :
    numbersFrom (passed.reverse ++ rest) (encode (passed.reverse ++ rest)) (width passed.reverse) =
      .ok ((numberTokensFrom count passed rest).map fun t => (t.start, t.chars)) := by
  induction count generalizing passed rest with
  | zero =>
      obtain rfl := List.length_eq_zero_iff.mp (Nat.le_zero.mp hcount)
      simp [numbersFrom, numberTokensFrom]
  | succ count ih =>
      have hgo : ∀ n, 0 < n → numbersFrom (passed.reverse ++ rest) (encode (passed.reverse ++ rest))
          (width (passed.reverse ++ rest.take n)) =
          .ok ((numberTokensFrom count ((rest.take n).reverse ++ passed) (rest.drop n)).map
            fun t => (t.start, t.chars)) := by
        intro n hn
        have hlength : (rest.drop n).length ≤ count := by
          rw [List.length_drop]
          omega
        have hlater := @ih ((rest.take n).reverse ++ passed) _ hlength
        simpa using hlater
      cases rest with
      | nil => simp [numbersFrom, numberTokensFrom]
      | cons c rest =>
          rw [numberTokensFrom_cons]
          split_ifs with hdigit hcontinues hletter
          · rw [numbersFrom_skip _ _ _ (by simpa using hdigit)]
            exact hgo 1 Nat.one_pos
          all_goals
            replace hdigit : isAsciiDigit c = true := by simpa using hdigit
            have hn := numberLength_pos hdigit rest
            rw [numbersFrom_digit passed rest hdigit]
          · rw [if_pos hcontinues]
            exact hgo _ (takeWhile_identChar_pos hdigit rest)
          · rw [if_neg hcontinues, if_pos hletter]
            exact hgo _ (by omega)
          · rw [if_neg hcontinues, if_neg hletter]
            dsimp only
            rw [hgo _ hn]
            rfl

/-- The loop over the bytes ends, and finds the numbers. -/
theorem numbers_eq (text : List Char) :
    numbers text = .ok ((numberTokens text).map fun t => (t.start, t.chars)) :=
  @numbersFrom_encode text.length [] text le_rfl

/-! ## Around a number -/

theorem isSubscript_eq {text : List Char} {t : NumberToken} (h : t ∈ numberTokens text) :
    isSubscript text t.start t.chars = .ok t.isSubscript := by
  obtain rfl : t.passed.reverse ++ t.chars ++ t.rest = text := isCut_of_mem_numberTokensFrom h
  have hbefore : slice (t.passed.reverse ++ t.chars ++ t.rest) 0 t.start = .ok t.passed.reverse := by
    rw [NumberToken.start, ← width_reverse, List.append_assoc, slice_left]
  have hafter := slice_right (t.passed.reverse ++ t.chars) t.rest
  rw [width_append, width_reverse] at hafter
  rw [isSubscript, hbefore, ok_bind, NumberToken.start, hafter, ok_bind]
  simp [NumberToken.isSubscript, trimEnd, dropEndWhile]

end GodotLint.Offset
