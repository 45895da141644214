import Mathlib
import GodotLint.Text.Utf8

/-!
# Reading UTF-8 byte by byte

Reading is a machine that shows characters and goes from state to state (`readByte`). In every state
that it can reach, a byte below 0x80 is shown as its own character, whatever was left open before it
(`decodeFrom_append_ascii`), and such a character is shown for no other bytes (`readByte_ascii`). So
a file can be cut at such a byte before it is read or after. The bytes of a text are read back as the
text (`decodeFrom_encode`), and a byte-order mark is read from its three bytes only
(`dropMark_decodeFrom`).
-/

namespace GodotLint.Text

/-! ## One byte -/

/-- What a byte shows, and the state after it. -/
def readByte : Option Partial → Nat → List Char × Option Partial
  | none, b => beginByte b
  | some p, b =>
    if p.low ≤ b && b ≤ p.high then
      let bits := p.bits * 64 + (b - 0x80)
      if p.owed = 1 then ([Char.ofNat bits], none) else ([], some ⟨p.owed - 1, 0x80, 0xBF, bits⟩)
    else (replacement :: (beginByte b).1, (beginByte b).2)

theorem decodeFrom_cons (state : Option Partial) (b : UInt8) (rest : List UInt8) :
    decodeFrom state (b :: rest) =
      (readByte state b.toNat).1 ++ decodeFrom (readByte state b.toNat).2 rest := by
  cases state with
  | none => rfl
  | some p =>
      rw [decodeFrom, readByte]
      split_ifs <;> rfl

/-- The states that are reached: the next byte is none below 0x80, and the character will be none
below 0x80. -/
def IsReached : Option Partial → Prop
  | none => True
  | some p => 0x80 ≤ p.low ∧ 2 ≤ p.bits * 64 + (p.low - 0x80) ∧
    (p.owed = 1 → 0x80 ≤ p.bits * 64 + (p.low - 0x80))

theorem isReached_none : IsReached none := trivial

/-- What a byte begins, case by case. -/
theorem beginByte_cases (b : Nat) :
    (b < 0x80 ∧ beginByte b = ([Char.ofNat b], none)) ∨
    (0x80 ≤ b ∧ beginByte b = ([replacement], none)) ∨
    (0x80 ≤ b ∧ ∃ p, beginByte b = ([], some p) ∧ IsReached (some p)) := by
  rw [beginByte, firstByte]
  by_cases hascii : b < 0x80
  · simp [hascii]
  · simp only [if_neg hascii]
    split_ifs with h1 h2 h3 h4 h5 h6 h7
    all_goals simp [IsReached] at *
    all_goals omega

/-- Every state that comes after a reached one is reached. -/
theorem isReached_readByte {state : Option Partial} (h : IsReached state) (b : Nat) :
    IsReached (readByte state b).2 := by
  have hbegin : IsReached (beginByte b).2 := by
    rcases beginByte_cases b with ⟨-, heq⟩ | ⟨-, heq⟩ | ⟨-, p, heq, hp⟩
    · rw [heq]
      trivial
    · rw [heq]
      trivial
    · rw [heq]
      exact hp
  cases state with
  | none => exact hbegin
  | some p =>
      rw [readByte]
      split_ifs with hrange howed
      · trivial
      · simp only [Bool.and_eq_true, decide_eq_true_eq] at hrange
        simp only [IsReached] at h ⊢
        omega
      · exact hbegin

/-- A byte below 0x80 ends what was left open, and is shown as its own character. -/
theorem readByte_of_lt {state : Option Partial} (h : IsReached state) {b : Nat} (hb : b < 0x80) :
    readByte state b = (decodeFrom state [] ++ [Char.ofNat b], none) := by
  have hbegin : beginByte b = ([Char.ofNat b], none) := by
    rcases beginByte_cases b with ⟨-, heq⟩ | ⟨hle, -⟩ | ⟨hle, -⟩
    · exact heq
    · omega
    · omega
  cases state with
  | none => exact hbegin
  | some p =>
      have hlow : ¬ (p.low ≤ b && b ≤ p.high) = true := by
        simp only [Bool.and_eq_true, decide_eq_true_eq]
        have := h.1
        omega
      rw [readByte, if_neg hlow, hbegin]
      rfl

/-- A character other than the zero character has the number that it was made from. -/
theorem eq_toNat_of_ofNat {n : Nat} {c : Char} (h : Char.ofNat n = c) (hzero : c ≠ '\x00') :
    n = c.toNat := by
  rw [Char.ofNat] at h
  split_ifs at h with hvalid
  · rw [← h]
    rfl
  · exact absurd h.symm hzero

/-- A character below 0x80 is shown for the byte of its number, the zero character apart. -/
theorem eq_of_mem_readByte {state : Option Partial} (h : IsReached state) {b : Nat} {c : Char}
    (hc : c ∈ (readByte state b).1) (hlt : c.toNat < 0x80) (hzero : c ≠ '\x00') : b = c.toNat := by
  have hreplacement : c ≠ replacement := by
    rintro rfl
    exact absurd hlt (by decide)
  have hbegin : c ∈ (beginByte b).1 → b = c.toNat := by
    intro hc
    rcases beginByte_cases b with ⟨hb, heq⟩ | ⟨-, heq⟩ | ⟨-, p, heq, -⟩
    · rw [heq, List.mem_singleton] at hc
      exact eq_toNat_of_ofNat hc.symm hzero
    · rw [heq, List.mem_singleton] at hc
      exact absurd hc hreplacement
    · rw [heq] at hc
      cases hc
  cases state with
  | none => exact hbegin hc
  | some p =>
      rw [readByte] at hc
      split_ifs at hc with hrange howed
      · rw [List.mem_singleton] at hc
        simp only [Bool.and_eq_true, decide_eq_true_eq] at hrange
        have hbits : 0x80 ≤ p.bits * 64 + (b - 0x80) := by
          have := h.2.2 howed
          omega
        have := eq_toNat_of_ofNat hc.symm hzero
        omega
      · cases hc
      · rcases List.mem_cons.mp hc with hc | hc
        · exact absurd hc hreplacement
        · exact hbegin hc

/-! ## Cutting bytes -/

section cutting

variable {state : Option Partial} {l rest : List UInt8} {b : UInt8} {c : Char}

/-- Bytes can be cut at one below 0x80, which is read as its own character. -/
theorem decodeFrom_append_ascii (h : IsReached state) (hb : b.toNat < 0x80) (l rest : List UInt8) :
    decodeFrom state (l ++ b :: rest) =
      decodeFrom state l ++ Char.ofNat b.toNat :: decodeFrom none rest := by
  induction l generalizing state with
  | nil => rw [List.nil_append, decodeFrom_cons, readByte_of_lt h hb, List.append_assoc]; rfl
  | cons a l ih =>
      rw [List.cons_append, decodeFrom_cons, ih (isReached_readByte h _), decodeFrom_cons,
        List.append_assoc]

/-- A character below 0x80 is read from the byte of its number, the zero character apart. -/
theorem exists_mem_of_mem_decodeFrom (h : IsReached state) (hc : c ∈ decodeFrom state l)
    (hlt : c.toNat < 0x80) (hzero : c ≠ '\x00') : ∃ b ∈ l, b.toNat = c.toNat := by
  induction l generalizing state with
  | nil =>
      cases state with
      | none => cases hc
      | some p =>
          rw [decodeFrom, List.mem_singleton] at hc
          subst hc
          exact absurd hlt (by decide)
  | cons b l ih =>
      rw [decodeFrom_cons, List.mem_append] at hc
      rcases hc with hc | hc
      · exact ⟨b, List.mem_cons_self .., eq_of_mem_readByte h hc hlt hzero⟩
      · obtain ⟨a, ha, heq⟩ := ih (isReached_readByte h _) hc
        exact ⟨a, List.mem_cons_of_mem _ ha, heq⟩

/-- Something is shown for a byte, at once or at the end. -/
theorem decodeFrom_singleton_ne_nil (state : Option Partial) (b : UInt8) :
    decodeFrom state [b] ≠ [] := by
  have hshown : (readByte state b.toNat).1 ≠ [] ∨ ∃ p, (readByte state b.toNat).2 = some p := by
    cases state with
    | none =>
        rw [readByte]
        rcases beginByte_cases b.toNat with ⟨-, heq⟩ | ⟨-, heq⟩ | ⟨-, p, heq, -⟩
        · exact .inl (by simp [heq])
        · exact .inl (by simp [heq])
        · exact .inr ⟨p, by rw [heq]⟩
    | some p =>
        rw [readByte]
        split_ifs
        · exact .inl (List.cons_ne_nil _ _)
        · exact .inr ⟨_, rfl⟩
        · exact .inl (List.cons_ne_nil _ _)
  rw [decodeFrom_cons]
  rcases hshown with hshown | ⟨p, hp⟩
  · exact List.append_ne_nil_of_left_ne_nil hshown _
  · rw [hp]
    exact List.append_ne_nil_of_right_ne_nil _ (List.cons_ne_nil _ _)

theorem decodeFrom_cons_ne_nil (state : Option Partial) (b : UInt8) (l : List UInt8) :
    decodeFrom state (b :: l) ≠ [] := by
  induction l generalizing state b with
  | nil => exact decodeFrom_singleton_ne_nil state b
  | cons a l ih =>
      rw [decodeFrom_cons]
      exact List.append_ne_nil_of_right_ne_nil _ (ih _ _)

theorem decodeFrom_eq_nil_iff : decodeFrom none l = [] ↔ l = [] := by
  cases l with
  | nil => simp [decodeFrom]
  | cons b l => simp [decodeFrom_cons_ne_nil]

/-- A character below 0x80 at the end is read from the last byte, the zero character apart. -/
theorem exists_getLast?_eq (h : IsReached state) (hc : (decodeFrom state l).getLast? = some c)
    (hlt : c.toNat < 0x80) (hzero : c ≠ '\x00') : ∃ b, l.getLast? = some b ∧ b.toNat = c.toNat := by
  have hreplacement : c ≠ replacement := by
    rintro rfl
    exact absurd hlt (by decide)
  induction l generalizing state with
  | nil =>
      cases state with
      | none => cases hc
      | some p => exact absurd (Option.some_inj.mp hc).symm hreplacement
  | cons b l ih =>
      rw [decodeFrom_cons] at hc
      cases l with
      | nil =>
          refine ⟨b, rfl, ?_⟩
          cases hstate : (readByte state b.toNat).2 with
          | none =>
              rw [hstate, decodeFrom, List.append_nil] at hc
              exact eq_of_mem_readByte h (List.mem_of_getLast? hc) hlt hzero
          | some p =>
              rw [hstate, decodeFrom, List.getLast?_concat] at hc
              exact absurd (Option.some_inj.mp hc).symm hreplacement
      | cons a l =>
          rw [List.getLast?_append_of_ne_nil _ (decodeFrom_cons_ne_nil _ a l)] at hc
          obtain ⟨d, hd, heq⟩ := ih (isReached_readByte h _) hc
          exact ⟨d, by rw [List.getLast?_cons_cons]; exact hd, heq⟩

end cutting

/-! ## Reading what was written -/

/-- The first byte of a character of two bytes. -/
theorem readByte_of_two {b : Nat} (h : 0xC2 ≤ b ∧ b ≤ 0xDF) :
    readByte none b = ([], some ⟨1, 0x80, 0xBF, b - 0xC0⟩) := by
  rw [readByte, beginByte, firstByte, if_neg (by omega), if_pos (by simpa using h)]

/-- The first byte of a character of three bytes. -/
theorem readByte_of_three {b : Nat} (h : 0xE0 ≤ b ∧ b ≤ 0xEF) : ∃ low high,
    readByte none b = ([], some ⟨2, low, high, b - 0xE0⟩) ∧
      ∀ n, 0x80 ≤ n → n ≤ 0xBF → (b = 0xE0 → 0xA0 ≤ n) → (b = 0xED → n ≤ 0x9F) →
        low ≤ n ∧ n ≤ high := by
  rw [readByte, beginByte, firstByte]
  split_ifs with h1 h2 h3 h4 h5
  · omega
  · simp only [Bool.and_eq_true, decide_eq_true_eq] at h2
    omega
  · exact ⟨0xA0, 0xBF, by simp [h3], fun n _ hle hlow _ => ⟨hlow h3, hle⟩⟩
  · exact ⟨0x80, 0x9F, by simp [h4], fun n hle _ _ hhigh => ⟨hle, hhigh h4⟩⟩
  · exact ⟨0x80, 0xBF, rfl, fun n hle hhigh _ _ => ⟨hle, hhigh⟩⟩
  all_goals
    simp only [Bool.and_eq_true, decide_eq_true_eq] at h5
    omega

/-- The first byte of a character of four bytes. -/
theorem readByte_of_four {b : Nat} (h : 0xF0 ≤ b ∧ b ≤ 0xF4) : ∃ low high,
    readByte none b = ([], some ⟨3, low, high, b - 0xF0⟩) ∧
      ∀ n, 0x80 ≤ n → n ≤ 0xBF → (b = 0xF0 → 0x90 ≤ n) → (b = 0xF4 → n ≤ 0x8F) →
        low ≤ n ∧ n ≤ high := by
  rw [readByte, beginByte, firstByte]
  split_ifs with h1 h2 h3 h4 h5 h6 h7 h8
  · omega
  · simp only [Bool.and_eq_true, decide_eq_true_eq] at h2
    omega
  · omega
  · omega
  · simp only [Bool.and_eq_true, decide_eq_true_eq] at h5
    omega
  · exact ⟨0x90, 0xBF, by simp [h6], fun n _ hle hlow _ => ⟨hlow h6, hle⟩⟩
  · exact ⟨0x80, 0xBF, rfl, fun n hle hhigh _ _ => ⟨hle, hhigh⟩⟩
  · exact ⟨0x80, 0x8F, by simp [h8], fun n hle _ _ hhigh => ⟨hle, hhigh h8⟩⟩
  · simp only [Bool.and_eq_true, decide_eq_true_eq] at h7
    omega

/-- A byte that continues a character. -/
theorem readByte_of_range {p : Partial} {n : Nat} (h : p.low ≤ n ∧ n ≤ p.high) :
    readByte (some p) n =
      if p.owed = 1 then ([Char.ofNat (p.bits * 64 + (n - 0x80))], none)
      else ([], some ⟨p.owed - 1, 0x80, 0xBF, p.bits * 64 + (n - 0x80)⟩) := by
  rw [readByte, if_pos (by simpa using h)]

/-- The bytes of a character are read as this character. -/
theorem decodeFrom_encodeChar (c : Char) (rest : List UInt8) :
    decodeFrom none (String.utf8EncodeChar c ++ rest) = c :: decodeFrom none rest := by
  have hvalid : c.val.toNat < 0xD800 ∨ 0xDFFF < c.val.toNat ∧ c.val.toNat < 0x110000 := c.valid
  have hself : Char.ofNat c.val.toNat = c := Char.ofNat_toNat c
  unfold String.utf8EncodeChar
  generalize c.val.toNat = v at hvalid hself
  have hbyte : ∀ n < 256, (UInt8.ofNat n).toNat = n := fun n hn => UInt8.toNat_ofNat_of_lt' hn
  simp only
  split_ifs with h1 h2 h3 <;>
    simp only [List.cons_append, List.nil_append, decodeFrom_cons]
  · rw [hbyte v (by omega), readByte_of_lt isReached_none (by omega), hself]
    rfl
  · have hvalue : (v / 64 % 32 + 192 - 192) * 64 + (v % 64 + 128 - 128) = v := by omega
    rw [hbyte _ (by omega), hbyte _ (by omega), readByte_of_two (by omega),
      readByte_of_range (by simp only; omega)]
    simp only [if_true, List.nil_append, List.singleton_append]
    rw [hvalue, hself]
  · have hvalue : ((v / 4096 % 16 + 224 - 224) * 64 + (v / 64 % 64 + 128 - 128)) * 64 +
        (v % 64 + 128 - 128) = v := by omega
    obtain ⟨low, high, hread, hrange⟩ := readByte_of_three (b := v / 4096 % 16 + 224) (by omega)
    rw [hbyte _ (by omega), hbyte _ (by omega), hbyte _ (by omega), hread,
      readByte_of_range (hrange _ (by omega) (by omega) (by omega) (by omega))]
    simp only [Nat.reduceEqDiff, if_false]
    rw [readByte_of_range (by simp only; omega)]
    simp only [Nat.add_one_sub_one, if_true, List.nil_append, List.singleton_append]
    rw [hvalue, hself]
  · have hvalue : (((v / 262144 % 8 + 240 - 240) * 64 + (v / 4096 % 64 + 128 - 128)) * 64 +
        (v / 64 % 64 + 128 - 128)) * 64 + (v % 64 + 128 - 128) = v := by omega
    obtain ⟨low, high, hread, hrange⟩ := readByte_of_four (b := v / 262144 % 8 + 240) (by omega)
    rw [hbyte _ (by omega), hbyte _ (by omega), hbyte _ (by omega), hbyte _ (by omega), hread,
      readByte_of_range (hrange _ (by omega) (by omega) (by omega) (by omega))]
    simp only [Nat.reduceEqDiff, if_false]
    rw [readByte_of_range (by simp only; omega)]
    simp only [Nat.reduceEqDiff, Nat.reduceSub, if_false]
    rw [readByte_of_range (by simp only; omega)]
    simp only [Nat.reduceSub, if_true, List.nil_append, List.singleton_append]
    rw [hvalue, hself]

/-- The bytes of a text are read as this text. -/
theorem decodeFrom_encode (s : List Char) : decodeFrom none (encode s) = s := by
  induction s with
  | nil => rfl
  | cons c s ih =>
      have hencode : encode (c :: s) = String.utf8EncodeChar c ++ encode s := rfl
      rw [hencode, decodeFrom_encodeChar, ih]

/-! ## Byte-order marks -/

/-- Drops the bytes of one byte-order mark at the start. -/
def dropMarkBytes (bytes : List UInt8) : List UInt8 :=
  match bytes with
  | 0xEF :: 0xBB :: 0xBF :: rest => rest
  | _ => bytes

section head

variable {owed low high bits : Nat} {l : List UInt8} {c : Char}

/-- What is shown first after a character that is partly read comes from this character, if it is
no replacement. -/
theorem head?_decodeFrom_some (h : (decodeFrom (some ⟨owed, low, high, bits⟩) l).head? = some c)
    (hc : c ≠ replacement) : ∃ n rest, l = n :: rest ∧ (low ≤ n.toNat ∧ n.toNat ≤ high) ∧
      (owed = 1 → Char.ofNat (bits * 64 + (n.toNat - 0x80)) = c) ∧
      (owed ≠ 1 → (decodeFrom (some ⟨owed - 1, 0x80, 0xBF, bits * 64 + (n.toNat - 0x80)⟩)
        rest).head? = some c) := by
  cases l with
  | nil => exact absurd (Option.some_inj.mp h).symm hc
  | cons n rest =>
      refine ⟨n, rest, rfl, ?_⟩
      rw [decodeFrom] at h
      split_ifs at h with hrange howed
      · simp only [Bool.and_eq_true, decide_eq_true_eq] at hrange
        exact ⟨hrange, fun _ => Option.some_inj.mp h, fun hne => absurd howed hne⟩
      · simp only [Bool.and_eq_true, decide_eq_true_eq] at hrange
        exact ⟨hrange, fun heq => absurd heq howed, fun _ => h⟩
      · exact absurd (Option.some_inj.mp h).symm hc

/-- The number of the character that one more byte ends. -/
theorem exists_of_head?_one (h : (decodeFrom (some ⟨1, low, high, bits⟩) l).head? = some c)
    (hc : c ≠ replacement) (hzero : c ≠ '\x00') : ∃ n rest, l = n :: rest ∧
      (low ≤ n.toNat ∧ n.toNat ≤ high) ∧ bits * 64 + (n.toNat - 0x80) = c.toNat := by
  obtain ⟨n, rest, hl, hn, hone, -⟩ := head?_decodeFrom_some h hc
  exact ⟨n, rest, hl, hn, eq_toNat_of_ofNat (hone rfl) hzero⟩

/-- The number of the character that two more bytes end. -/
theorem exists_of_head?_two (h : (decodeFrom (some ⟨2, low, high, bits⟩) l).head? = some c)
    (hc : c ≠ replacement) (hzero : c ≠ '\x00') : ∃ n m rest, l = n :: m :: rest ∧
      (low ≤ n.toNat ∧ n.toNat ≤ high) ∧ (0x80 ≤ m.toNat ∧ m.toNat ≤ 0xBF) ∧
        (bits * 64 + (n.toNat - 0x80)) * 64 + (m.toNat - 0x80) = c.toNat := by
  obtain ⟨n, rest, rfl, hn, -, hmore⟩ := head?_decodeFrom_some h hc
  obtain ⟨m, rest, rfl, hm, hvalue⟩ := exists_of_head?_one (hmore (by decide)) hc hzero
  exact ⟨n, m, rest, rfl, hn, hm, hvalue⟩

/-- Three more bytes end a character of a number that is not below their first one. -/
theorem le_of_head?_three (h : (decodeFrom (some ⟨3, low, high, bits⟩) l).head? = some c)
    (hc : c ≠ replacement) (hzero : c ≠ '\x00') :
    (bits * 64 + (low - 0x80)) * 4096 ≤ c.toNat := by
  obtain ⟨n, rest, rfl, hn, -, hmore⟩ := head?_decodeFrom_some h hc
  obtain ⟨m, k, rest, rfl, hm, hk, hvalue⟩ := exists_of_head?_two (hmore (by decide)) hc hzero
  omega

end head

/-- A mark is read from its own bytes only. -/
theorem exists_of_head?_mark {bytes : List UInt8}
    (h : (decodeFrom none bytes).head? = some '\ufeff') :
    ∃ rest, bytes = 0xEF :: 0xBB :: 0xBF :: rest := by
  have hmark : '\ufeff' ≠ replacement := by decide
  have hzero : '\ufeff' ≠ '\x00' := by decide
  have hnumber : ('\ufeff').toNat = 0xFEFF := rfl
  cases bytes with
  | nil => cases h
  | cons b l =>
      rw [decodeFrom_cons, readByte, beginByte, firstByte] at h
      split_ifs at h with h1 h2 h3 h4 h5 h6 h7 h8
      · have := eq_toNat_of_ofNat (Option.some_inj.mp h) hzero
        omega
      · obtain ⟨n, rest, rfl, hn, hvalue⟩ := exists_of_head?_one h hmark hzero
        simp only [Bool.and_eq_true, decide_eq_true_eq] at h2
        omega
      · obtain ⟨n, m, rest, rfl, hn, hm, hvalue⟩ := exists_of_head?_two h hmark hzero
        omega
      · obtain ⟨n, m, rest, rfl, hn, hm, hvalue⟩ := exists_of_head?_two h hmark hzero
        omega
      · obtain ⟨n, m, rest, rfl, hn, hm, hvalue⟩ := exists_of_head?_two h hmark hzero
        simp only [Bool.and_eq_true, decide_eq_true_eq] at h5
        have hb : b = 0xEF := UInt8.toNat_inj.mp (by simp only [UInt8.reduceToNat]; omega)
        have hn : n = 0xBB := UInt8.toNat_inj.mp (by simp only [UInt8.reduceToNat]; omega)
        have hm : m = 0xBF := UInt8.toNat_inj.mp (by simp only [UInt8.reduceToNat]; omega)
        exact ⟨rest, by rw [hb, hn, hm]⟩
      · have := le_of_head?_three h hmark hzero
        omega
      · have := le_of_head?_three h hmark hzero
        simp only [Bool.and_eq_true, decide_eq_true_eq] at h7
        omega
      · have := le_of_head?_three h hmark hzero
        omega
      · exact absurd (Option.some_inj.mp h).symm hmark

/-- Dropping a mark before reading or after it is the same. -/
theorem dropMark_decodeFrom (bytes : List UInt8) :
    dropMark (decodeFrom none bytes) = decodeFrom none (dropMarkBytes bytes) := by
  by_cases h : ∃ rest, bytes = 0xEF :: 0xBB :: 0xBF :: rest
  · obtain ⟨rest, rfl⟩ := h
    have hencode : String.utf8EncodeChar '\ufeff' = [0xEF, 0xBB, 0xBF] := by decide
    have hread := decodeFrom_encodeChar '\ufeff' rest
    rw [hencode] at hread
    have hmark : decodeFrom none (0xEF :: 0xBB :: 0xBF :: rest) = '\ufeff' :: decodeFrom none rest :=
      hread
    rw [hmark]
    rfl
  · have hbytes : dropMarkBytes bytes = bytes := by
      unfold dropMarkBytes
      split
      · rename_i rest
        exact absurd ⟨rest, rfl⟩ h
      · rfl
    rw [hbytes]
    unfold dropMark
    split
    · rename_i rest hread
      exact absurd (exists_of_head?_mark (by rw [hread]; rfl)) h
    · rfl

end GodotLint.Text
