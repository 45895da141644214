import GodotLint.Text.Basic
import Mathlib

/-!
# Byte offsets and runs of characters

Every place in a text is a byte offset. Here an offset is tied to the text before it: the offset
`width a` cuts `a ++ b` between `a` and `b` (`takeBytes_width_append`, `dropBytes_width_append`),
and two beginnings of one text of equal width are equal (`append_inj_of_width`).
-/

namespace GodotLint.Text

@[simp] theorem width_nil : width [] = 0 := rfl

@[simp] theorem width_cons (c : Char) (s : List Char) : width (c :: s) = c.utf8Size + width s := rfl

@[simp] theorem width_append (a b : List Char) : width (a ++ b) = width a + width b := by
  induction a with
  | nil => simp
  | cons c a ih => simp [ih, Nat.add_assoc]

/-- Only the empty text takes no bytes. -/
@[simp] theorem width_eq_zero {s : List Char} : width s = 0 ↔ s = [] := by
  cases s with
  | nil => simp
  | cons c s =>
      have := c.utf8Size_pos
      simp only [width_cons, reduceCtorEq, iff_false]
      omega

/-- A text that is not empty takes bytes. -/
theorem width_pos {s : List Char} (h : s ≠ []) : 0 < width s :=
  Nat.pos_of_ne_zero fun h0 => h (width_eq_zero.mp h0)

/-- Two beginnings of one text, compared by their bytes: the shorter one begins the longer one. -/
theorem prefix_of_width_le {a b : List Char} :
    ∀ {u v : List Char}, a ++ u = b ++ v → width a ≤ width b → a <+: b := by
  induction a generalizing b with
  | nil => intros; exact List.nil_prefix
  | cons c a ih =>
      intro u v h hw
      cases b with
      | nil =>
          have := c.utf8Size_pos
          simp only [width_cons, width_nil] at hw
          omega
      | cons d b =>
          simp only [List.cons_append, List.cons.injEq] at h
          obtain ⟨rfl, h⟩ := h
          simp only [width_cons, Nat.add_le_add_iff_left] at hw
          exact List.cons_prefix_cons.mpr ⟨rfl, ih h hw⟩

/-- Two beginnings of one text that take equally many bytes are equal, and so are the rests. -/
theorem append_inj_of_width {a b u v : List Char} (h : a ++ u = b ++ v)
    (hw : width a = width b) : a = b ∧ u = v := by
  obtain ⟨w, rfl⟩ := prefix_of_width_le h hw.le
  have hw0 : w = [] := by
    rw [width_append] at hw
    exact width_eq_zero.mp (by omega)
  subst hw0
  simp only [List.append_nil] at h ⊢
  exact ⟨trivial, List.append_cancel_left h⟩

/-- At an offset between `a` and `b`, all of `a` is taken. -/
@[simp] theorem takeBytes_width_append (a b : List Char) : takeBytes (width a) (a ++ b) = a := by
  induction a with
  | nil =>
      cases b with
      | nil => rfl
      | cons c b =>
          have := c.utf8Size_pos
          simp only [width_nil, List.nil_append, takeBytes]
          rw [if_neg (by omega)]
  | cons c a ih => simp [takeBytes, ih]

/-- At an offset between `a` and `b`, all of `a` is dropped. -/
@[simp] theorem dropBytes_width_append (a b : List Char) : dropBytes (width a) (a ++ b) = b := by
  induction a with
  | nil =>
      cases b with
      | nil => rfl
      | cons c b =>
          have := c.utf8Size_pos
          simp only [width_nil, List.nil_append, dropBytes]
          rw [if_neg (by omega)]
  | cons c a ih => simp [dropBytes, ih]

end GodotLint.Text

/-!
## Runs of characters

Where a run of characters of one kind ends, two ways of cutting a text agree: `append_inj_of_stop`.
The kinds that the scanners cut at, blanks and the characters of identifiers, have nothing in
common.
-/

namespace GodotLint.Text

/-- A text that does not start with a character of the kind `P`. -/
def StopsAt (P : Char → Prop) (s : List Char) : Prop := ∀ c r, s = c :: r → ¬ P c

theorem stopsAt_cons {P : Char → Prop} {c : Char} {s : List Char} :
    StopsAt P (c :: s) ↔ ¬ P c := by
  constructor
  · intro h
    exact h c s rfl
  · intro h d r hd
    cases hd
    exact h

/-- A run of one kind that ends where the kind stops is determined by the whole text. -/
theorem append_inj_of_stop {P : Char → Prop} {a b u v : List Char} (ha : ∀ c ∈ a, P c)
    (hb : ∀ c ∈ b, P c) (hu : StopsAt P u) (hv : StopsAt P v) (h : a ++ u = b ++ v) :
    a = b ∧ u = v := by
  induction a generalizing b with
  | nil =>
      cases b with
      | nil => exact ⟨rfl, h⟩
      | cons c b => exact absurd (hb c (by simp)) (hu c (b ++ v) h)
  | cons c a ih =>
      cases b with
      | nil => exact absurd (ha c (by simp)) (hv c (a ++ u) h.symm)
      | cons d b =>
          simp only [List.cons_append, List.cons.injEq] at h
          obtain ⟨rfl, h⟩ := h
          obtain ⟨rfl, hrest⟩ := ih (fun x hx => ha x (by simp [hx]))
            (fun x hx => hb x (by simp [hx])) h
          exact ⟨rfl, hrest⟩

/-- A run of one kind at the end of a text is determined by the whole text, where the kind stops
before it. -/
theorem append_inj_of_stop_right {P : Char → Prop} {a b u v : List Char} (ha : ∀ c ∈ a, P c)
    (hb : ∀ c ∈ b, P c) (hu : StopsAt P u.reverse) (hv : StopsAt P v.reverse)
    (h : u ++ a = v ++ b) : a = b ∧ u = v := by
  have hreverse := congrArg List.reverse h
  rw [List.reverse_append, List.reverse_append] at hreverse
  obtain ⟨hrun, hrest⟩ := append_inj_of_stop (fun c hc => ha c (List.mem_reverse.mp hc))
    (fun c hc => hb c (List.mem_reverse.mp hc)) hu hv hreverse
  exact ⟨List.reverse_injective hrun, List.reverse_injective hrest⟩

/-- Characters of identifiers lie between the digits and the small letters. -/
theorem toNat_of_isIdentChar {c : Char} (h : isIdentChar c = true) :
    0x30 ≤ c.toNat ∧ c.toNat ≤ 0x7a := by
  simp only [isIdentChar, isAsciiAlnum, isAsciiLetter, isAsciiUpper, isAsciiLower, isAsciiDigit,
    Bool.or_eq_true, Bool.and_eq_true, decide_eq_true_eq, beq_iff_eq, Char.le_def,
    UInt32.le_iff_toNat_le] at h
  change 0x30 ≤ c.val.toNat ∧ c.val.toNat ≤ 0x7a
  rcases h with ((h | h) | h) | rfl
  · exact ⟨le_trans (by decide) h.1, le_trans h.2 (by decide)⟩
  · exact ⟨le_trans (by decide) h.1, le_trans h.2 (by decide)⟩
  · exact ⟨le_trans (by decide) h.1, le_trans h.2 (by decide)⟩
  · decide

/-- Characters of identifiers are ASCII. -/
theorem isAscii_of_isIdentChar {c : Char} (h : isIdentChar c = true) : isAscii c = true :=
  decide_eq_true (lt_of_le_of_lt (toNat_of_isIdentChar h).2 (by decide))

/-- What may stand in an identifier may stand in a word. -/
theorem isWordChar_of_isIdentChar {c : Char} (h : isIdentChar c = true) : isWordChar c = true := by
  rw [isWordChar, if_pos (isAscii_of_isIdentChar h), h]

/-- Characters of identifiers take one byte. -/
theorem utf8Size_of_isIdentChar {c : Char} (h : isIdentChar c = true) : c.utf8Size = 1 := by
  rw [Char.utf8Size_eq_one_iff, UInt32.le_iff_toNat_le]
  exact le_trans (toNat_of_isIdentChar h).2 (by decide)

/-- Blanks lie below the digits or above the small letters. -/
theorem toNat_of_isBlank {c : Char} (h : isBlank c = true) : c.toNat ≤ 0x20 ∨ 0x85 ≤ c.toNat := by
  simp only [isBlank, Bool.or_eq_true, Bool.and_eq_true, decide_eq_true_eq, beq_iff_eq,
    Char.le_def, UInt32.le_iff_toNat_le] at h
  change c.val.toNat ≤ 0x20 ∨ 0x85 ≤ c.val.toNat
  rcases h with (((((((((rfl | h) | rfl) | rfl) | rfl) | h) | rfl) | rfl) | rfl) | rfl) | rfl
  · exact .inl (by decide)
  · exact .inl (le_trans h.2 (by decide))
  · exact .inr (by decide)
  · exact .inr (by decide)
  · exact .inr (by decide)
  · exact .inr (le_trans (by decide) h.1)
  · exact .inr (by decide)
  · exact .inr (by decide)
  · exact .inr (by decide)
  · exact .inr (by decide)
  · exact .inr (by decide)

/-- No character of an identifier is blank. -/
theorem isBlank_eq_false_of_isIdentChar {c : Char} (h : isIdentChar c = true) :
    isBlank c = false := by
  rw [Bool.eq_false_iff]
  intro hb
  have := toNat_of_isIdentChar h
  have := toNat_of_isBlank hb
  omega

/-- What is dropped at the end leaves a first character that is to stay. -/
theorem dropEndWhile_cons {p : Char → Bool} {c : Char} (hc : p c = false) (s : List Char) :
    dropEndWhile p (c :: s) = c :: dropEndWhile p s := by
  rw [dropEndWhile, dropEndWhile, List.reverse_cons, List.dropWhile_append]
  split_ifs with hempty
  · have hnil := List.isEmpty_iff.mp hempty
    simp [hnil, hc]
  · simp

theorem mem_of_mem_dropEndWhile {p : Char → Bool} {s : List Char} {c : Char}
    (h : c ∈ dropEndWhile p s) : c ∈ s := by
  rw [dropEndWhile, List.mem_reverse] at h
  exact List.mem_reverse.mp ((List.dropWhile_sublist p).mem h)

theorem mem_of_mem_trim {s : List Char} {c : Char} (h : c ∈ trim s) : c ∈ s :=
  (List.dropWhile_sublist isBlank).mem (mem_of_mem_dropEndWhile h)

/-- A text is what is left without the blanks at its end, and these. -/
theorem exists_trimEnd_append (s : List Char) :
    ∃ b, s = trimEnd s ++ b ∧ ∀ c ∈ b, isBlank c = true := by
  refine ⟨(s.reverse.takeWhile isBlank).reverse, ?_, fun c hc => ?_⟩
  · rw [trimEnd, dropEndWhile, ← List.reverse_append, List.takeWhile_append_dropWhile,
      List.reverse_reverse]
  · exact List.mem_takeWhile_imp (List.mem_reverse.mp hc)

/-- No blanks are added. -/
theorem length_trim_le (s : List Char) : (trim s).length ≤ s.length := by
  have hend : (trimEnd (trimStart s)).length ≤ (trimStart s).length := by
    obtain ⟨b, hb, -⟩ := exists_trimEnd_append (trimStart s)
    have := congrArg List.length hb
    rw [List.length_append] at this
    omega
  exact hend.trans (List.length_dropWhile_le _ _)

/-- A text in front of which and behind which there is no blank stays as it is. -/
theorem trim_eq_self {c d : Char} (hc : isBlank c = false) (hd : isBlank d = false) (s : List Char) :
    trim (c :: (s ++ [d])) = c :: (s ++ [d]) := by
  have hstart : trimStart (c :: (s ++ [d])) = c :: (s ++ [d]) := by
    simp [trimStart, hc]
  rw [trim, hstart, trimEnd, dropEndWhile_cons hc, dropEndWhile, List.reverse_append]
  simp [hd]

end GodotLint.Text
