import GodotLint.Proofs.Line.Words
import GodotLint.Proofs.Offset.Slice
import GodotLint.Proofs.Text.LineEnds
import GodotLint.Script.Literal

/-!
# Reading the bytes of a text

A reader of bytes knows where it is by the number of bytes before it. Between two characters it sees the
first byte of the next character, and the last byte of the one before. A test that only characters of
ASCII pass (`OfAscii`) has the same outcome on a character and on each of these bytes, since no byte of
another character is below 128 (`onByte_first`, `onByte_last`).

A search for a word goes on one byte behind an occurrence that does not stand alone. This byte starts a
character if the word does with a character of ASCII, as names do (`containsWord_eq`).
-/

namespace GodotLint.Offset

open Text Script

/-! ## Tests of bytes -/

/-- A test of characters as a test of the bytes of ASCII. -/
def onByte (p : Char → Bool) (b : UInt8) : Bool := b.toNat < 0x80 && p (Char.ofNat b.toNat)

/-- Only characters of ASCII pass a test. -/
def OfAscii (p : Char → Bool) : Prop := ∀ c, p c = true → c.toNat < 0x80

theorem OfAscii.or {p q : Char → Bool} (hp : OfAscii p) (hq : OfAscii q) :
    OfAscii fun c => p c || q c := by
  intro c hc
  rcases (Bool.or_eq_true _ _).mp hc with hc | hc
  · exact hp c hc
  · exact hq c hc

theorem ofAscii_eq {d : Char} (h : d.toNat < 0x80) : OfAscii (· == d) := by
  intro c hc
  rw [beq_iff_eq] at hc
  exact hc ▸ h

theorem ofAscii_range {a d : Char} (h : d.toNat < 0x80) : OfAscii fun c => a ≤ c && c ≤ d := by
  intro c hc
  simp only [Bool.and_eq_true, decide_eq_true_eq, Char.le_def, UInt32.le_iff_toNat_le] at hc
  exact hc.2.trans_lt h

theorem ofAscii_contains {ds : List Char} (h : ∀ d ∈ ds, d.toNat < 0x80) : OfAscii ds.contains := by
  intro c hc
  exact h c (List.contains_iff_mem.mp hc)

theorem ofAscii_digit : OfAscii isAsciiDigit := ofAscii_range (by decide)

theorem ofAscii_letter : OfAscii isAsciiLetter :=
  .or (ofAscii_range (by decide)) (ofAscii_range (by decide))

theorem ofAscii_identChar : OfAscii isIdentChar :=
  .or (.or ofAscii_letter ofAscii_digit) (ofAscii_eq (by decide))

/-! ## The bytes of a character -/

theorem utf8EncodeChar_of_lt {c : Char} (h : c.toNat < 0x80) :
    String.utf8EncodeChar c = [UInt8.ofNat c.toNat] := by
  have hval : c.val.toNat ≤ 0x7f := Nat.le_of_lt_succ h
  rw [String.utf8EncodeChar]
  simp only [hval, if_true]
  rfl

theorem utf8EncodeChar_ne_nil (c : Char) : String.utf8EncodeChar c ≠ [] := by
  rw [Ne, ← List.length_eq_zero_iff, String.length_utf8EncodeChar]
  exact c.utf8Size_pos.ne'

/-- No byte of a character outside of ASCII is one of ASCII. -/
theorem le_of_mem_utf8EncodeChar {c : Char} (h : 0x80 ≤ c.toNat) {b : UInt8}
    (hb : b ∈ String.utf8EncodeChar c) : 0x80 ≤ b.toNat := by
  have hval : 0x80 ≤ c.val.toNat := h
  have hbyte : ∀ n, 0x80 ≤ n → n < 256 → 0x80 ≤ (UInt8.ofNat n).toNat := by
    intro n hn hmax
    rwa [UInt8.toNat_ofNat_of_lt' hmax]
  unfold String.utf8EncodeChar at hb
  generalize c.val.toNat = v at hval hb
  dsimp only at hb
  split_ifs at hb with h1 h2 h3
  · omega
  · simp only [List.mem_cons, List.not_mem_nil, or_false] at hb
    rcases hb with rfl | rfl <;> exact hbyte _ (by omega) (by omega)
  · simp only [List.mem_cons, List.not_mem_nil, or_false] at hb
    rcases hb with rfl | rfl | rfl <;> exact hbyte _ (by omega) (by omega)
  · simp only [List.mem_cons, List.not_mem_nil, or_false] at hb
    rcases hb with rfl | rfl | rfl | rfl <;> exact hbyte _ (by omega) (by omega)

/-- A test has the same outcome on a character of ASCII and on its byte, and fails on all bytes of other
characters. -/
theorem onByte_of_mem {p : Char → Bool} (hp : OfAscii p) {c : Char} {b : UInt8}
    (hb : b ∈ String.utf8EncodeChar c) : onByte p b = p c := by
  by_cases hc : c.toNat < 0x80
  · rw [utf8EncodeChar_of_lt hc, List.mem_singleton] at hb
    have hb' : b.toNat = c.toNat := by
      rw [hb, UInt8.toNat_ofNat_of_lt' (hc.trans (by decide))]
    rw [onByte, hb', Char.ofNat_toNat, decide_eq_true hc, Bool.true_and]
  · have hlarge := le_of_mem_utf8EncodeChar (not_lt.mp hc) hb
    rw [onByte, decide_eq_false (not_lt.mpr hlarge), Bool.false_and, eq_comm, Bool.eq_false_iff]
    exact fun hpc => hc (hp c hpc)

/-! ## The bytes of a text -/

theorem encode_cons (c : Char) (s : List Char) :
    encode (c :: s) = String.utf8EncodeChar c ++ encode s := rfl

@[simp] theorem length_encode (s : List Char) : (encode s).length = width s := by
  induction s with
  | nil => rfl
  | cons c s ih => rw [encode_cons, List.length_append, ih, String.length_utf8EncodeChar, width_cons]

/-- A character of ASCII takes one byte. -/
theorem utf8Size_of_ascii {c : Char} (h : c.toNat < 0x80) : c.utf8Size = 1 :=
  Char.utf8Size_eq_one_iff.mpr (UInt32.le_iff_toNat_le.mpr (Nat.le_of_lt_succ h))

theorem width_append_of_ascii (u : List Char) {c : Char} (h : c.toNat < 0x80) :
    width (u ++ [c]) = width u + 1 := by
  simp [utf8Size_of_ascii h]

/-- The byte at an offset inside of a character or at its start is one of this character. -/
theorem exists_row_encode (u : List Char) (c : Char) (v : List Char) {k : Nat}
    (hk : k < c.utf8Size) : ∃ b ∈ String.utf8EncodeChar c,
      row (encode (u ++ c :: v)) (width u + k) = .ok b := by
  have hk' : k < (String.utf8EncodeChar c).length := by rwa [String.length_utf8EncodeChar]
  refine ⟨(String.utf8EncodeChar c)[k], List.getElem_mem hk', ?_⟩
  have hget : (encode (u ++ c :: v))[width u + k]? = some (String.utf8EncodeChar c)[k] := by
    rw [encode_append, encode_cons, List.getElem?_append_right (by simp), length_encode,
      Nat.add_sub_cancel_left, List.getElem?_append_left hk', List.getElem?_eq_getElem hk']
  rw [row, hget]

section tests

variable {p : Char → Bool} (hp : OfAscii p) (u v : List Char)

include hp

/-- The byte after a place is the first one of the next character. -/
theorem onByte_first (c : Char) :
    onByte p <$> row (encode (u ++ c :: v)) (width u) = .ok (p c) := by
  obtain ⟨b, hb, hrow⟩ := exists_row_encode u c v c.utf8Size_pos
  rw [Nat.add_zero] at hrow
  rw [hrow, ← onByte_of_mem hp hb]
  rfl

/-- The byte before a place is the last one of the character before it. -/
theorem onByte_last (c : Char) :
    onByte p <$> row (encode (u ++ [c] ++ v)) (width (u ++ [c]) - 1) = .ok (p c) := by
  have hsize := c.utf8Size_pos
  have hlast : width (u ++ [c]) - 1 = width u + (c.utf8Size - 1) := by
    simp only [width_append, width_cons, width_nil]
    omega
  obtain ⟨b, hb, hrow⟩ := exists_row_encode u c v (k := c.utf8Size - 1) (by omega)
  rw [hlast, List.append_assoc, List.singleton_append, hrow, ← onByte_of_mem hp hb]
  rfl

end tests

/-! ## Parts of the bytes of a text -/

/-- A byte of ASCII among the bytes of a text is a character of it. -/
theorem exists_of_encode_eq_cons {text : List Char} {c : Char} (hc : c.toNat < 0x80)
    {before after : List UInt8} (h : encode text = before ++ (String.utf8EncodeChar c ++ after)) :
    ∃ u v, text = u ++ c :: v ∧ encode u = before ∧ encode v = after := by
  have hbyte := utf8EncodeChar_of_lt hc
  rw [hbyte] at h
  induction text generalizing before with
  | nil => simp [encode] at h
  | cons d text ih =>
      rw [encode_cons] at h
      rcases List.append_eq_append_iff.mp h with ⟨later, rfl, htext⟩ | ⟨first, hd, hrest⟩
      · obtain ⟨u, v, rfl, rfl, rfl⟩ := ih htext
        exact ⟨d :: u, v, rfl, encode_cons d u, rfl⟩
      · cases first with
        | nil =>
            obtain ⟨u, v, rfl, hu, rfl⟩ := @ih [] hrest.symm
            exact ⟨d :: u, v, rfl, by simp [encode_cons, hu, hd], rfl⟩
        | cons b first =>
            -- the byte is one of the next character, which then is of ASCII
            obtain ⟨rfl, hafter⟩ := List.cons.inj hrest
            have hmem : UInt8.ofNat c.toNat ∈ String.utf8EncodeChar d := by simp [hd]
            have heq := onByte_of_mem (ofAscii_eq hc) hmem
            rw [onByte, UInt8.toNat_ofNat_of_lt' (hc.trans (by decide)), Char.ofNat_toNat,
              decide_eq_true hc, beq_self_eq_true, Bool.true_and, eq_comm, beq_iff_eq] at heq
            subst heq
            have hlength := congrArg List.length (hbyte.symm.trans hd)
            simp only [List.length_append, List.length_cons, List.length_nil] at hlength
            obtain rfl := List.eq_nil_of_length_eq_zero (by omega : before.length = 0)
            obtain rfl := List.eq_nil_of_length_eq_zero (by omega : first.length = 0)
            exact ⟨[], text, rfl, rfl, hafter.symm⟩

/-- Bytes of ASCII among the bytes of a text are characters of it. -/
theorem exists_of_encode_eq_append {text word : List Char} (hword : ∀ c ∈ word, c.toNat < 0x80)
    {before after : List UInt8} (hne : word ≠ [])
    (h : encode text = before ++ (encode word ++ after)) :
    ∃ u v, text = u ++ (word ++ v) ∧ encode u = before ∧ encode v = after := by
  induction word generalizing text before with
  | nil => exact absurd rfl hne
  | cons c word ih =>
      obtain ⟨hc, hrest⟩ := List.forall_mem_cons.mp hword
      rw [encode_cons, List.append_assoc] at h
      obtain ⟨u, v, rfl, rfl, hv⟩ := exists_of_encode_eq_cons hc h
      cases word with
      | nil => exact ⟨u, v, rfl, rfl, hv⟩
      | cons d word =>
          have hbytes : encode v = [] ++ (encode (d :: word) ++ after) := hv
          obtain ⟨u', v', rfl, hu', rfl⟩ := ih hrest (by simp) hbytes
          obtain rfl : u' = [] := width_eq_zero.mp (by rw [← length_encode, hu']; rfl)
          exact ⟨u, v', rfl, rfl, rfl⟩

section ends

variable {p : Char → Bool} (hp : OfAscii p) (s : List Char)

include hp

/-- The first byte of a text passes a test as its first character does. -/
theorem any_head?_encode : (encode s).head?.any (onByte p) = s.head?.any p := by
  cases s with
  | nil => rfl
  | cons c s =>
      obtain ⟨b, bs, hbytes⟩ := List.exists_cons_of_ne_nil (utf8EncodeChar_ne_nil c)
      have hb : b ∈ String.utf8EncodeChar c := by simp [hbytes]
      rw [encode_cons, hbytes]
      exact onByte_of_mem hp hb

/-- The last byte of a text passes a test as its last character does. -/
theorem any_getLast?_encode : (encode s).getLast?.any (onByte p) = s.getLast?.any p := by
  rcases List.eq_nil_or_concat s with rfl | ⟨u, c, rfl⟩
  · rfl
  · obtain ⟨bs, b, hbytes⟩ := (List.eq_nil_or_concat _).resolve_left (utf8EncodeChar_ne_nil c)
    have hb : b ∈ String.utf8EncodeChar c := by simp [hbytes]
    have hlast : encode (u.concat c) = encode u ++ bs ++ [b] := by
      rw [List.concat_eq_append, encode_append, encode_cons, hbytes, List.concat_eq_append]
      simp [encode]
    rw [hlast, List.getLast?_concat, List.concat_eq_append, List.getLast?_concat]
    exact onByte_of_mem hp hb

end ends

/-! ## Loops over bytes -/

/-- Whether there is a byte at an index and it passes a test. -/
def testAt (bytes : List UInt8) (p : Char → Bool) (index : Nat) : Checked Bool :=
  if index < bytes.length then onByte p <$> row bytes index else .ok false

/-- Whether there is a byte before an index and it passes a test. -/
def testBefore (bytes : List UInt8) (p : Char → Bool) (index : Nat) : Checked Bool :=
  if index = 0 then .ok false else onByte p <$> row bytes (index - 1)

/-- The index from one on at which the first byte stands that fails a test. -/
def skipWhile (bytes : List UInt8) (p : Char → Bool) (index : Nat) : Checked Nat :=
  if _h : index < bytes.length then do
    if onByte p (← row bytes index) then skipWhile bytes p (index + 1) else return index
  else return index
termination_by bytes.length - index

section loops

variable {p : Char → Bool} (hp : OfAscii p) (u v : List Char)

include hp

theorem testAt_encode : testAt (encode (u ++ v)) p (width u) = .ok (v.head?.any p) := by
  rw [testAt, length_encode, width_append]
  cases v with
  | nil => simp
  | cons c v =>
      have hsize := c.utf8Size_pos
      rw [if_pos (by simp only [width_cons]; omega), onByte_first hp]
      rfl

theorem testBefore_encode : testBefore (encode (u ++ v)) p (width u) = .ok (u.getLast?.any p) := by
  rcases List.eq_nil_or_concat u with rfl | ⟨u, c, rfl⟩
  · rfl
  · rw [List.concat_eq_append, testBefore, if_neg (width_pos (by simp)).ne', onByte_last hp]
    simp

theorem skipWhile_encode :
    skipWhile (encode (u ++ v)) p (width u) = .ok (width (u ++ v.takeWhile p)) := by
  induction v generalizing u with
  | nil => simp [skipWhile]
  | cons c v ih =>
      have hsize := c.utf8Size_pos
      have hlt : width u < (encode (u ++ c :: v)).length := by
        simp only [length_encode, width_append, width_cons]
        omega
      obtain ⟨b, hb, hrow⟩ := exists_row_encode u c v c.utf8Size_pos
      rw [Nat.add_zero] at hrow
      rw [skipWhile, dif_pos hlt, hrow]
      change (if onByte p b = true then _ else _) = _
      rw [onByte_of_mem hp hb]
      by_cases hc : p c = true
      · -- a character that passes is of ASCII and has one byte
        rw [if_pos hc, ← width_append_of_ascii u (hp c hc), List.append_cons, ih,
          List.takeWhile_cons, if_pos hc]
        simp
      · rw [if_neg hc, List.takeWhile_cons, if_neg hc, List.append_nil]
        rfl

end loops

end GodotLint.Offset

namespace GodotLint.Offset

open Text Line

/-! ## Words by offsets -/

/-- Whether a word stands alone in a text, searched from a byte offset on. -/
def wordFrom (text word : List Char) (bytes : List UInt8) (start : Nat) : Checked Bool := do
  match cutAt? word (← slice text start (width text)) with
  | none => return false
  | some (before, _) =>
    let first := start + width before
    let continues ← testBefore bytes isIdentChar first
    let continued ← testAt bytes isIdentChar (first + width word)
    if !continues && !continued then return true
    else if _h : first + 1 < width text then wordFrom text word bytes (first + 1)
    else return false
termination_by width text - start

/-- Whether a word stands alone in a text. -/
def containsWord (text word : List Char) : Checked Bool := wordFrom text word (encode text) 0

/-! ## The first occurrence -/

variable {word : List Char}

theorem searchWord_of_cutAt?_eq_none (hne : word ≠ []) {v : List Char} (h : cutAt? word v = none)
    (previous : Option Char) : searchWord word previous v = .absent := by
  induction v generalizing previous with
  | nil => simp [searchWord, hne]
  | cons c v ih =>
      rw [cutAt?] at h
      rw [searchWord.eq_def]
      dsimp only
      cases hafter : afterPrefix? word (c :: v) with
      | some after => simp [hafter] at h
      | none =>
          simp only [hafter, Option.map_eq_none_iff] at h
          exact ih h _

theorem searchWord_of_cutAt?_eq_some {v before after : List Char}
    (hne : word ≠ []) (h : cutAt? word v = some (before, after)) (previous : Option Char) :
    v = before ++ word ++ after ∧
      searchWord word previous v = searchWord word (before.getLast?.or previous) (word ++ after) := by
  induction v generalizing before previous with
  | nil => simp [cutAt?, hne] at h
  | cons c v ih =>
      rw [cutAt?] at h
      cases hafter : afterPrefix? word (c :: v) with
      | some rest =>
          simp only [hafter, Option.some.injEq, Prod.mk.injEq] at h
          obtain ⟨rfl, rfl⟩ := h
          rw [afterPrefix?_eq_some] at hafter
          exact ⟨hafter, by rw [hafter]; rfl⟩
      | none =>
          simp only [hafter, Option.map_eq_some_iff, Prod.mk.injEq] at h
          obtain ⟨⟨before', after'⟩, hcut, rfl, rfl⟩ := h
          obtain ⟨rfl, hsearch⟩ := ih hcut (some c)
          refine ⟨rfl, ?_⟩
          rw [searchWord.eq_def]
          dsimp only
          rw [hafter]
          dsimp only
          rw [hsearch, List.getLast?_cons]
          cases before'.getLast? <;> rfl

/-- Where the search stands at an occurrence, it ends or goes on behind the first character. -/
theorem searchWord_at {c : Char} (hsize : c.utf8Size = 1) (w after : List Char)
    (previous : Option Char) :
    searchWord (c :: w) previous (c :: w ++ after) =
      if previous.all (!isIdentChar ·) && endsWord after then .found
      else if w ++ after = [] then .absent
      else searchWord (c :: w) (some c) (w ++ after) := by
  have hafter : afterPrefix? (c :: w) (c :: (w ++ after)) = some after := afterPrefix?_eq_some.mpr rfl
  rw [List.cons_append, searchWord.eq_def]
  dsimp only
  rw [hafter]
  dsimp only
  cases w ++ after <;> simp [hsize]

/-! ## All occurrences -/

theorem standsAlone_eq (previous : Option Char) (after : List Char) :
    (!previous.any isIdentChar && !after.head?.any isIdentChar) =
      (previous.all (!isIdentChar ·) && endsWord after) := by
  cases previous <;> cases after <;> rfl

theorem wordFrom_encode (hne : word ≠ []) (hascii : ∀ c ∈ word, c.toNat < 0x80) (u v : List Char) :
    wordFrom (u ++ v) word (encode (u ++ v)) (width u) =
      .ok (searchWord word u.getLast? v == .found) := by
  induction hlength : v.length using Nat.strong_induction_on generalizing u v with
  | _ n ih =>
      rw [wordFrom, slice_right, ok_bind]
      cases hcut : cutAt? word v with
      | none =>
          rw [searchWord_of_cutAt?_eq_none hne hcut]
          rfl
      | some cut =>
          obtain ⟨before, after⟩ := cut
          obtain ⟨rfl, hsearch⟩ := searchWord_of_cutAt?_eq_some hne hcut u.getLast?
          obtain ⟨c, w, rfl⟩ := List.exists_cons_of_ne_nil hne
          have hc := hascii c (by simp)
          have htext : u ++ (before ++ c :: w ++ after) = u ++ before ++ c :: w ++ after := by simp
          have hfirst : width u + width before = width (u ++ before) := (width_append ..).symm
          have hcontinues := testBefore_encode ofAscii_identChar (u ++ before) (c :: w ++ after)
          have hcontinued := testAt_encode ofAscii_identChar (u ++ before ++ c :: w) after
          rw [← List.append_assoc] at hcontinues
          dsimp only
          rw [htext, hfirst, ← width_append, hcontinues, ok_bind, hcontinued, ok_bind, hsearch,
            ← List.getLast?_append, searchWord_at (utf8Size_of_ascii hc), ← standsAlone_eq]
          by_cases halone :
              (!(u ++ before).getLast?.any isIdentChar && !after.head?.any isIdentChar) = true
          · rw [if_pos halone, if_pos halone]
            rfl
          · -- the search goes on where the rest of the word starts
            have hnext := width_append_of_ascii (u ++ before) hc
            have hrest : u ++ before ++ c :: w ++ after = u ++ before ++ [c] ++ (w ++ after) := by simp
            have hwidth : width (u ++ before ++ c :: w ++ after) =
                width (u ++ before) + 1 + width (w ++ after) := by rw [hrest, width_append, hnext]
            rw [if_neg halone, if_neg halone]
            by_cases hend : w ++ after = []
            · rw [if_pos hend, dif_neg (by rw [hwidth, hend, width_nil]; omega)]
              rfl
            · have hpos := width_pos hend
              rw [if_neg hend, dif_pos (by omega), ← hnext, hrest,
                ih (w ++ after).length (by grind) _ _ rfl]
              simp

/-- A word of ASCII is found where it stands alone, and no offset of the search lies in a character. -/
theorem containsWord_eq (hne : word ≠ []) (hascii : ∀ c ∈ word, c.toNat < 0x80) (text : List Char) :
    containsWord text word = .ok (Line.containsWord text word) :=
  wordFrom_encode hne hascii [] text

/-- With a word that starts otherwise, the search may fall into a character. -/
example : containsWord "äx".toList "ä".toList = .error .insideCharacter := by cbv

end GodotLint.Offset
