import Mathlib
import GodotLint.Proofs.Text.Bytes
import GodotLint.Text.CharClass

/-!
# Tables of characters, and blanks

In a table whose ranges rise, the binary search finds exactly the characters of the ranges
(`contains_iff`). A table is written as a long text, so what is said of its ranges is read off this
text range by range (`Reading.upcoming`), without the array that the search works on.

The blanks are twenty-five characters (`mem_blankChars`), so what is said of each of them can be
checked one by one; none of them is a letter or a digit of any script (`isAlphanumeric_of_isBlank`).
Trimming takes away what blanks there are on both sides of a text (`trim_of_blanks`), and more blanks
behind a text make no difference to it (`trim_append_blanks`).
-/

namespace GodotLint.Text.CharTable

/-! ## Reading -/

/-- A reading that had read further ranges before. -/
def Reading.after (r : Reading) (ranges : Array (Nat × Nat)) : Reading :=
  { r with ranges := ranges ++ r.ranges }

theorem Reading.close_after (r : Reading) (ranges : Array (Nat × Nat)) :
    (r.after ranges).close = r.close.after ranges := by
  simp only [close, after]
  split <;> simp

theorem Reading.feed_after (r : Reading) (ranges : Array (Nat × Nat)) (c : Char) :
    (r.after ranges).feed c = (r.feed c).after ranges := by
  have hclose := close_after r ranges
  simp only [feed]
  split
  · rfl
  · split_ifs
    · rfl
    · exact hclose

theorem Reading.foldl_feed_after (text : List Char) (r : Reading) (ranges : Array (Nat × Nat)) :
    text.foldl feed (r.after ranges) = (text.foldl feed r).after ranges := by
  induction text generalizing r with
  | nil => rfl
  | cons c rest ih => rw [List.foldl_cons, List.foldl_cons, feed_after, ih]

/-- The ranges that the rest of a text describes. A range is handed out where it is read, and then
forgotten. -/
def Reading.upcoming : List Char → Reading → List (Nat × Nat)
  | [], r => r.close.ranges.toList
  | c :: rest, r =>
    match r.feed c with
    | ⟨first, number, ranges⟩ => ranges.toList ++ upcoming rest ⟨first, number, #[]⟩

theorem Reading.toList_ranges_foldl_feed (text : List Char) (r : Reading) :
    (text.foldl feed r).close.ranges.toList = upcoming text r := by
  induction text generalizing r with
  | nil => rfl
  | cons c rest ih =>
      have hforget : r.feed c = after { r.feed c with ranges := #[] } (r.feed c).ranges := by
        simp [after]
      rw [List.foldl_cons, hforget, foldl_feed_after, close_after, upcoming]
      simp only [after, Array.toList_append, ih]

/-- The ranges of a table, read off the characters of its text. -/
theorem toList_ranges_ofText {s : String} {text : List Char} (hs : s = String.ofList text) :
    (ofText s).ranges.toList = Reading.upcoming text {} := by
  subst hs
  rw [ofText, String.toList_ofList]
  exact Reading.toList_ranges_foldl_feed text {}

/-- What holds of the ranges that the text describes holds of all ranges. -/
theorem forall_mem_ofText {s : String} (text : List Char) (hs : s = String.ofList text)
    {P : Nat × Nat → Bool} (h : (Reading.upcoming text {}).all P = true) :
    ∀ r ∈ (ofText s).ranges, P r = true := by
  intro r hr
  rw [← toList_ranges_ofText hs] at h
  exact List.all_eq_true.mp h r (Array.mem_toList_iff.mpr hr)

/-! ## Searching -/

/-- Ranges in rising order, from some code point on. -/
def isRising : (low : Nat) → List (Nat × Nat) → Bool
  | _, [] => true
  | low, (first, last) :: rest => low ≤ first && first ≤ last && isRising (last + 1) rest

/-- A later range lies above an earlier one. -/
theorem pairwise_of_isRising {low : Nat} {ranges : List (Nat × Nat)}
    (h : isRising low ranges = true) :
    (∀ r ∈ ranges, low ≤ r.1 ∧ r.1 ≤ r.2) ∧ ranges.Pairwise fun r s => r.2 < s.1 := by
  induction ranges generalizing low with
  | nil => exact ⟨by simp, .nil⟩
  | cons range rest ih =>
      obtain ⟨first, last⟩ := range
      simp only [isRising, Bool.and_eq_true, decide_eq_true_eq] at h
      obtain ⟨⟨hlow, hrange⟩, hrest⟩ := h
      obtain ⟨habove, hpairwise⟩ := ih hrest
      refine ⟨List.forall_mem_cons.mpr ⟨⟨hlow, hrange⟩, fun r hr => ?_⟩,
        List.pairwise_cons.mpr ⟨fun r hr => (habove r hr).1, hpairwise⟩⟩
      have := habove r hr
      omega

/-- What the search finds is in a range. -/
theorem exists_of_search {ranges : Array (Nat × Nat)} {n steps lo hi : Nat}
    (h : search ranges n steps lo hi = true) : ∃ r ∈ ranges, r.1 ≤ n ∧ n ≤ r.2 := by
  induction steps generalizing lo hi with
  | zero => cases h
  | succ steps ih =>
      rw [search] at h
      split_ifs at h with hlt
      dsimp only at h
      split at h
      · cases h
      · rename_i first last hmiddle
        split_ifs at h with hbelow habove
        · exact ih h
        · exact ih h
        · exact ⟨(first, last), Array.mem_of_getElem? hmiddle, by omega, by omega⟩

/-- The search finds a code point of a range between its bounds, if it may halve often enough. -/
theorem search_of_mem {ranges : Array (Nat × Nat)}
    (hrising : ranges.toList.Pairwise fun r s => r.2 < s.1) (hranges : ∀ r ∈ ranges, r.1 ≤ r.2)
    {n i : Nat} (hi : i < ranges.size) (hfirst : ranges[i].1 ≤ n) (hlast : n ≤ ranges[i].2)
    {steps lo hi' : Nat} (hlo : lo ≤ i) (hhi : i < hi') (hsize : hi' ≤ ranges.size)
    (hsteps : hi' - lo < 2 ^ steps) : search ranges n steps lo hi' = true := by
  induction steps generalizing lo hi' with
  | zero => omega
  | succ steps ih =>
      obtain ⟨middle, hmiddle⟩ : ∃ middle, middle = (lo + hi') / 2 := ⟨_, rfl⟩
      have hbound : middle < ranges.size := by omega
      have hrange := hranges ranges[middle] (Array.getElem_mem hbound)
      -- the range at `i` lies above those before it and below those after it
      have horder : ∀ {a b : Nat} (ha : a < ranges.size) (hb : b < ranges.size), a < b →
          ranges[a].2 < ranges[b].1 := fun {a b} ha hb hab => by
        have := List.pairwise_iff_getElem.mp hrising a b (by simpa using ha) (by simpa using hb) hab
        simpa using this
      rw [search, if_pos (by omega), ← hmiddle]
      simp only [Array.getElem?_eq_getElem hbound]
      rcases lt_trichotomy i middle with hbefore | rfl | hafter
      · have := horder hi hbound hbefore
        rw [if_pos (by omega)]
        exact ih hlo hbefore (by omega) (by omega)
      · rw [if_neg (by omega), if_neg (by omega)]
      · have := horder hbound hi hafter
        rw [if_neg (by omega), if_pos (by omega)]
        exact ih hafter hhi hsize (by omega)

/-- **A table holds exactly the characters of its ranges**, if they rise. -/
theorem contains_iff {t : CharTable} (h : isRising 0 t.ranges.toList = true) {c : Char} :
    t.contains c = true ↔ ∃ r ∈ t.ranges, r.1 ≤ c.toNat ∧ c.toNat ≤ r.2 := by
  constructor
  · exact exists_of_search
  · rintro ⟨r, hr, hfirst, hlast⟩
    obtain ⟨hranges, hrising⟩ := pairwise_of_isRising h
    obtain ⟨i, hi, rfl⟩ := Array.mem_iff_getElem.mp hr
    refine search_of_mem hrising (fun r hr => ?_) hi hfirst hlast (Nat.zero_le i) hi le_rfl ?_
    · exact (hranges r (Array.mem_toList_iff.mpr hr)).2
    · exact Nat.lt_log2_self

/-- A character of a table that is written in rising order. Only the characters of the text are
looked at. -/
theorem contains_ofText {s : String} (text : List Char) (hs : s = String.ofList text) {c : Char}
    (hrising : isRising 0 (Reading.upcoming text {}) = true)
    (hc : (Reading.upcoming text {}).any (fun r => r.1 ≤ c.toNat && c.toNat ≤ r.2) = true) :
    (ofText s).contains c = true := by
  rw [← toList_ranges_ofText hs] at hrising hc
  rw [contains_iff hrising]
  obtain ⟨r, hr, hbounds⟩ := List.any_eq_true.mp hc
  exact ⟨r, Array.mem_toList_iff.mp hr, by simpa using hbounds⟩

end GodotLint.Text.CharTable

namespace GodotLint.Text

variable {c : Char} {s t gap : List Char}

/-! ## Blanks -/

/-- All blanks. -/
def blankChars : List Char :=
  [' ', '\t', '\n', '\x0b', '\x0c', '\r', '\u0085', '\u00a0', '\u1680', '\u2000', '\u2001', '\u2002',
    '\u2003', '\u2004', '\u2005', '\u2006', '\u2007', '\u2008', '\u2009', '\u200a', '\u2028', '\u2029',
    '\u202f', '\u205f', '\u3000']

/-- A character whose code point lies in a range of blanks is one of them. -/
theorem mem_of_toNat_range {cs : List Char} {first last : Nat} (hfirst : first ≤ c.toNat)
    (hlast : c.toNat ≤ last)
    (hall : ∀ n ∈ List.range' first (last + 1 - first), Char.ofNat n ∈ cs) : c ∈ cs := by
  rw [← Char.ofNat_toNat c]
  exact hall c.toNat (List.mem_range'_1.mpr ⟨hfirst, by omega⟩)

theorem mem_blankChars (h : isBlank c = true) : c ∈ blankChars := by
  simp only [isBlank, Bool.or_eq_true, Bool.and_eq_true, decide_eq_true_eq, beq_iff_eq,
    Char.le_def, UInt32.le_iff_toNat_le] at h
  rcases h with (((((((((rfl | h) | rfl) | rfl) | rfl) | h) | rfl) | rfl) | rfl) | rfl) | rfl
  · decide
  · exact mem_of_toNat_range h.1 h.2 (by decide)
  · decide
  · decide
  · decide
  · exact mem_of_toNat_range h.1 h.2 (by decide)
  · decide
  · decide
  · decide
  · decide
  · decide

section table

-- a literal is unified with the list of its characters, one level for each of them
set_option maxRecDepth 60000

/-- Blanks are no letters and no digits. -/
theorem isAlphanumeric_of_isBlank (h : isBlank c = true) : isAlphanumeric c = false := by
  rw [isAlphanumeric, Bool.eq_false_iff]
  split_ifs
  · intro halnum
    have hident : isIdentChar c = true := by rw [isIdentChar, halnum, Bool.true_or]
    rw [isBlank_eq_false_of_isIdentChar hident] at h
    cases h
  · have hall : ∀ r ∈ alphanumericTable.ranges,
        (blankChars.all fun d => d.toNat < r.1 || r.2 < d.toNat) = true := by
      rw [alphanumericTable]
      refine CharTable.forall_mem_ofText _ rfl ?_
      decide +kernel
    intro hfound
    obtain ⟨r, hr, hfirst, hlast⟩ := CharTable.exists_of_search hfound
    have hbetween := List.all_eq_true.mp (hall r hr) c (mem_blankChars h)
    simp only [Bool.or_eq_true, decide_eq_true_eq] at hbetween
    omega

end table

/-! ## Trimming -/

theorem trimStart_append_blanks (hgap : ∀ c ∈ gap, isBlank c = true) (s : List Char) :
    trimStart (gap ++ s) = trimStart s := List.dropWhile_append_of_pos hgap

theorem trimEnd_append_blanks (hgap : ∀ c ∈ gap, isBlank c = true) (s : List Char) :
    trimEnd (s ++ gap) = trimEnd s := by
  rw [trimEnd, dropEndWhile, List.reverse_append,
    List.dropWhile_append_of_pos fun c hc => hgap c (List.mem_reverse.mp hc), trimEnd, dropEndWhile]

/-- Blanks behind a text are trimmed away. -/
theorem trim_append_blanks (hgap : ∀ c ∈ gap, isBlank c = true) (s : List Char) :
    trim (s ++ gap) = trim s := by
  have hnil : gap.dropWhile isBlank = [] := List.dropWhile_eq_nil_iff.mpr hgap
  rw [trim, trim, trimStart, trimStart, List.dropWhile_append]
  split_ifs with hblank
  · rw [hnil, List.isEmpty_iff.mp hblank]
  · exact trimEnd_append_blanks hgap _

/-- A text without blanks is what is left of it between blanks. -/
theorem trim_of_blanks (hs : ∀ c ∈ s, isBlank c = true) (hword : ∀ c ∈ t, isBlank c = false)
    (hgap : ∀ c ∈ gap, isBlank c = true) : trim (s ++ t ++ gap) = t := by
  have hkeep : ∀ u : List Char, (∀ c ∈ u, isBlank c = false) → u.dropWhile isBlank = u := by
    intro u hu
    cases u with
    | nil => rfl
    | cons c u => exact List.dropWhile_cons_of_neg (by simp [hu c List.mem_cons_self])
  rw [trim_append_blanks hgap, trim, trimStart_append_blanks hs, trimStart, hkeep t hword, trimEnd,
    dropEndWhile, hkeep _ fun c hc => hword c (List.mem_reverse.mp hc), List.reverse_reverse]

end GodotLint.Text
