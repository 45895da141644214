import Mathlib
import GodotLint.Proofs.Text.Bytes
import GodotLint.Text.CaseMap

/-!
# Case mapping and ASCII

What the case of a character maps to, as far as it is ASCII. A character beyond ASCII may have ASCII
characters in its image, but only letters of the case that is asked for (`ß` becomes `SS`, and the
Kelvin sign becomes `k`), and a character of ASCII stays in it (`isAsciiOnlyIf_of_mem_lower`,
`isAsciiOnlyIf_of_mem_upper` and their converses on ASCII). No character is mapped to nothing.

For the characters beyond ASCII this is read off the tables: a table is written as a long text, and
its runs are looked at where they are read (`Reading.upcoming`), without the array that the search
works on.
-/

namespace GodotLint.Text

/-- A character that is ASCII only if `p` holds of it. -/
def isAsciiOnlyIf (p : Char → Bool) (c : Char) : Bool := !isAscii c || p c

theorem isAsciiOnlyIf_of {p : Char → Bool} {c : Char} (h : p c = true) :
    isAsciiOnlyIf p c = true := by
  simp [isAsciiOnlyIf, h]

theorem isAsciiOnlyIf_of_not_isAscii {p : Char → Bool} {c : Char} (h : isAscii c = false) :
    isAsciiOnlyIf p c = true := by
  simp [isAsciiOnlyIf, h]

/-- An ASCII character satisfies what every ASCII character must. -/
theorem of_isAsciiOnlyIf {p : Char → Bool} {c : Char} (h : isAsciiOnlyIf p c = true)
    (hc : isAscii c = true) : p c = true := by
  simpa [isAsciiOnlyIf, hc] using h

theorem isAsciiOnlyIf_mono {p q : Char → Bool} (hpq : ∀ c, p c = true → q c = true) {c : Char}
    (h : isAsciiOnlyIf p c = true) : isAsciiOnlyIf q c = true := by
  simp only [isAsciiOnlyIf, Bool.or_eq_true] at h ⊢
  exact h.imp_right (hpq c)

/-- A valid number above ASCII is the number of a character beyond ASCII. -/
theorem isAscii_ofNat {n : Nat} (hn : 0x80 ≤ n) (hvalid : n.isValidChar) :
    isAscii (Char.ofNat n) = false := by
  rw [isAscii, Char.toNat_ofNat, if_pos hvalid]
  exact decide_eq_false (by omega)

/-! ## Runs -/

namespace CaseRun

/-- The ASCII characters to which a run maps satisfy `p`. A run of several characters has none. -/
def keepsTo (p : Char → Bool) (r : CaseRun) : Bool :=
  (if r.first = r.last then isAsciiOnlyIf p (Char.ofNat r.image)
    else 0x80 ≤ r.image && (r.image + (r.last - r.first) < 0xd800 ||
      0xdfff < r.image && r.image + (r.last - r.first) < 0x110000)) &&
    r.more.all fun n => isAsciiOnlyIf p (Char.ofNat n)

/-- A reading that had read further runs before. -/
def Reading.after (r : Reading) (runs : Array CaseRun) : Reading :=
  { r with runs := runs ++ r.runs }

theorem Reading.close_after (r : Reading) (runs : Array CaseRun) :
    (r.after runs).close = r.close.after runs := by
  simp only [close, after]
  split <;> simp

theorem Reading.feed_after (r : Reading) (runs : Array CaseRun) (c : Char) :
    (r.after runs).feed c = (r.feed c).after runs := by
  have hclose := close_after r runs
  simp only [feed]
  split
  · rfl
  · split_ifs
    · rfl
    · rfl
    · rfl
    · exact hclose

theorem Reading.foldl_feed_after (text : List Char) (r : Reading) (runs : Array CaseRun) :
    text.foldl feed (r.after runs) = (text.foldl feed r).after runs := by
  induction text generalizing r with
  | nil => rfl
  | cons c rest ih => rw [List.foldl_cons, List.foldl_cons, feed_after, ih]

/-- The runs that the rest of a text describes. A run is handed out where it is read, and then
forgotten. -/
def Reading.upcoming : List Char → Reading → List CaseRun
  | [], r => r.close.runs.toList
  | c :: rest, r =>
    match r.feed c with
    | ⟨numbers, number, step, sources, runs⟩ =>
      runs.toList ++ upcoming rest ⟨numbers, number, step, sources, #[]⟩

theorem Reading.toList_runs_foldl_feed (text : List Char) (r : Reading) :
    (text.foldl feed r).close.runs.toList = upcoming text r := by
  induction text generalizing r with
  | nil => rfl
  | cons c rest ih =>
      have hforget : r.feed c = after { r.feed c with runs := #[] } (r.feed c).runs := by
        simp [after]
      rw [List.foldl_cons, hforget, foldl_feed_after, close_after, upcoming]
      simp only [after, Array.toList_append, ih]

/-- What holds of the runs that are read off the characters of a text holds of the runs of the text.
-/
theorem forall_mem_ofText {s : String} (text : List Char) (hs : s = String.ofList text)
    {p : CaseRun → Bool} (h : (Reading.upcoming text {}).all p = true) :
    ∀ run ∈ ofText s, p run = true := by
  subst hs
  rw [← Reading.toList_runs_foldl_feed, List.all_eq_true] at h
  intro run hrun
  rw [ofText, String.toList_ofList] at hrun
  exact h run (Array.mem_toList_iff.mpr hrun)

/-- The run that the search finds is one of the runs, and holds the character. -/
theorem search_eq_some {runs : Array CaseRun} {n steps lo hi : Nat} {run : CaseRun}
    (h : search runs n steps lo hi = some run) :
    run ∈ runs ∧ run.first ≤ n ∧ n ≤ run.last := by
  induction steps generalizing lo hi with
  | zero => cases h
  | succ steps ih =>
      rw [search] at h
      split_ifs at h with hlt
      dsimp only at h
      split at h
      · cases h
      · rename_i middle hmiddle
        split_ifs at h with hbefore hafter hstep
        · exact ih h
        · exact ih h
        · cases h
          exact ⟨Array.mem_of_getElem? hmiddle, by omega, by omega⟩

/-- The image of a character beyond ASCII keeps to what the runs keep to. -/
theorem isAsciiOnlyIf_of_mem_map {p : Char → Bool} {runs : Array CaseRun}
    (hruns : ∀ run ∈ runs, run.keepsTo p = true) {c x : Char} (hc : isAscii c = false)
    (hx : x ∈ map runs c) : isAsciiOnlyIf p x = true := by
  rw [map] at hx
  split at hx
  · rw [List.mem_singleton] at hx
    rw [hx]
    exact isAsciiOnlyIf_of_not_isAscii hc
  · rename_i run hsearch
    obtain ⟨hrun, hfirst, hlast⟩ := search_eq_some hsearch
    have hkeeps := hruns run hrun
    rw [keepsTo, Bool.and_eq_true, List.all_eq_true] at hkeeps
    obtain ⟨himage, hmore⟩ := hkeeps
    rcases List.mem_cons.mp hx with rfl | hx
    · split_ifs at himage with hsingle
      · have hoffset : c.toNat - run.first = 0 := by omega
        rw [hoffset, Nat.add_zero]
        exact himage
      · simp only [Bool.and_eq_true, Bool.or_eq_true, decide_eq_true_eq] at himage
        refine isAsciiOnlyIf_of_not_isAscii (isAscii_ofNat (by omega) ?_)
        rw [Nat.isValidChar]
        omega
    · obtain ⟨n, hn, rfl⟩ := List.mem_map.mp hx
      exact hmore n hn

/-- A character that no run holds is mapped to itself. -/
theorem map_eq_self {runs : Array CaseRun} {c : Char}
    (h : ∀ run ∈ runs, (c.toNat < run.first || run.last < c.toNat) = true) : map runs c = [c] := by
  rw [map]
  split
  · rfl
  · rename_i run hsearch
    obtain ⟨hrun, hfirst, hlast⟩ := search_eq_some hsearch
    have hout := h run hrun
    simp only [Bool.or_eq_true, decide_eq_true_eq] at hout
    omega

theorem map_ne_nil (runs : Array CaseRun) (c : Char) : map runs c ≠ [] := by
  rw [map]
  split <;> simp

end CaseRun

section tables

-- a literal is unified with the list of its characters, one level for each of them
set_option maxRecDepth 40000

theorem lowerRuns_keepsTo : ∀ run ∈ lowerRuns, run.keepsTo isAsciiLower = true := by
  rw [lowerRuns]
  refine CaseRun.forall_mem_ofText _ rfl ?_
  decide +kernel

theorem upperRuns_keepsTo : ∀ run ∈ upperRuns, run.keepsTo isAsciiUpper = true := by
  rw [upperRuns]
  refine CaseRun.forall_mem_ofText _ rfl ?_
  decide +kernel

end tables

/-! ## Characters -/

section characters

variable {c x : Char}

theorem isAsciiLower_ofNat (hc : isAsciiUpper c = true) :
    isAsciiLower (Char.ofNat (c.toNat + 32)) = true := by
  simp only [isAsciiUpper, Bool.and_eq_true, decide_eq_true_eq, Char.le_def] at hc
  have hlow : 65 ≤ c.toNat := hc.1
  have hhigh : c.toNat ≤ 90 := hc.2
  interval_cases h : c.toNat <;> decide

theorem isAsciiUpper_ofNat (hc : isAsciiLower c = true) :
    isAsciiUpper (Char.ofNat (c.toNat - 32)) = true := by
  simp only [isAsciiLower, Bool.and_eq_true, decide_eq_true_eq, Char.le_def] at hc
  have hlow : 97 ≤ c.toNat := hc.1
  have hhigh : c.toNat ≤ 122 := hc.2
  interval_cases h : c.toNat <;> decide

theorem isAscii_of_isAsciiLower (hc : isAsciiLower c = true) : isAscii c = true :=
  isAscii_of_isIdentChar (by simp [isIdentChar, isAsciiAlnum, isAsciiLetter, hc])

theorem isAscii_of_isAsciiUpper (hc : isAsciiUpper c = true) : isAscii c = true :=
  isAscii_of_isIdentChar (by simp [isIdentChar, isAsciiAlnum, isAsciiLetter, hc])

/-- An ASCII character in lower case is a lowercase letter, unless it is the same character, which
is then no capital. -/
theorem mem_lowerChar (hx : x ∈ lowerChar c) :
    isAsciiOnlyIf isAsciiLower x = true ∨ x = c ∧ isAsciiUpper c = false := by
  rw [lowerChar] at hx
  split_ifs at hx with hc hupper
  · rw [List.mem_singleton] at hx
    exact .inl (hx ▸ isAsciiOnlyIf_of (isAsciiLower_ofNat hupper))
  · rw [List.mem_singleton] at hx
    exact .inr ⟨hx, by simpa using hupper⟩
  · exact .inl (CaseRun.isAsciiOnlyIf_of_mem_map lowerRuns_keepsTo (by simpa using hc) hx)

/-- An ASCII character in upper case is a capital, unless it is the same character, which is then no
lowercase letter. -/
theorem mem_upperChar (hx : x ∈ upperChar c) :
    isAsciiOnlyIf isAsciiUpper x = true ∨ x = c ∧ isAsciiLower c = false := by
  rw [upperChar] at hx
  split_ifs at hx with hc hlower
  · rw [List.mem_singleton] at hx
    exact .inl (hx ▸ isAsciiOnlyIf_of (isAsciiUpper_ofNat hlower))
  · rw [List.mem_singleton] at hx
    exact .inr ⟨hx, by simpa using hlower⟩
  · exact .inl (CaseRun.isAsciiOnlyIf_of_mem_map upperRuns_keepsTo (by simpa using hc) hx)

/-- Lower case does not leave ASCII. -/
theorem isAscii_of_mem_lowerChar (hc : isAscii c = true) (hx : x ∈ lowerChar c) :
    isAscii x = true := by
  rw [lowerChar, if_pos hc, List.mem_singleton] at hx
  subst hx
  split_ifs with hupper
  · exact isAscii_of_isAsciiLower (isAsciiLower_ofNat hupper)
  · exact hc

/-- Upper case does not leave ASCII. -/
theorem isAscii_of_mem_upperChar (hc : isAscii c = true) (hx : x ∈ upperChar c) :
    isAscii x = true := by
  rw [upperChar, if_pos hc, List.mem_singleton] at hx
  subst hx
  split_ifs with hlower
  · exact isAscii_of_isAsciiUpper (isAsciiUpper_ofNat hlower)
  · exact hc

theorem lowerChar_ne_nil (c : Char) : lowerChar c ≠ [] := by
  rw [lowerChar]
  split
  · simp
  · exact CaseRun.map_ne_nil lowerRuns c

theorem upperChar_ne_nil (c : Char) : upperChar c ≠ [] := by
  rw [upperChar]
  split
  · simp
  · exact CaseRun.map_ne_nil upperRuns c

end characters

/-! ## Texts -/

/-- A character of a text in lower case comes from one of the text. Only the sigma does not look
at the table, and it stays beyond ASCII. -/
theorem mem_lowerFrom {passed rest : List Char} {x : Char} (hx : x ∈ lowerFrom passed rest) :
    ∃ c ∈ rest, x ∈ lowerChar c ∨ isAscii c = false ∧ isAscii x = false := by
  induction rest generalizing passed with
  | nil => cases hx
  | cons c rest ih =>
      rw [lowerFrom, List.mem_append] at hx
      rcases hx with hx | hx
      · refine ⟨c, List.mem_cons_self, ?_⟩
        split_ifs at hx with hsigma hfinal
        · rw [beq_iff_eq] at hsigma
          rw [List.mem_singleton] at hx
          subst hsigma hx
          exact .inr ⟨by decide, by decide⟩
        · rw [beq_iff_eq] at hsigma
          rw [List.mem_singleton] at hx
          subst hsigma hx
          exact .inr ⟨by decide, by decide⟩
        · exact .inl hx
      · obtain ⟨d, hd, hxd⟩ := ih hx
        exact ⟨d, List.mem_cons_of_mem c hd, hxd⟩

/-- An ASCII character of a text in lower case is a lowercase letter, or it stands in the text and
is no capital. -/
theorem mem_lower {s : List Char} {x : Char} (hx : x ∈ lower s) :
    isAsciiOnlyIf isAsciiLower x = true ∨ x ∈ s ∧ isAsciiUpper x = false := by
  obtain ⟨c, hc, hx | ⟨-, hx⟩⟩ := mem_lowerFrom hx
  · rcases mem_lowerChar hx with hx | ⟨rfl, hx⟩
    · exact .inl hx
    · exact .inr ⟨hc, hx⟩
  · exact .inl (isAsciiOnlyIf_of_not_isAscii hx)

/-- An ASCII character of a text in upper case is a capital, or it stands in the text and is no
lowercase letter. -/
theorem mem_upper {s : List Char} {x : Char} (hx : x ∈ upper s) :
    isAsciiOnlyIf isAsciiUpper x = true ∨ x ∈ s ∧ isAsciiLower x = false := by
  obtain ⟨c, hc, hx⟩ := List.mem_flatMap.mp hx
  rcases mem_upperChar hx with hx | ⟨rfl, hx⟩
  · exact .inl hx
  · exact .inr ⟨hc, hx⟩

theorem isAscii_of_mem_lower {s : List Char} (hs : ∀ c ∈ s, isAscii c = true) {x : Char}
    (hx : x ∈ lower s) : isAscii x = true := by
  obtain ⟨c, hc, hx | ⟨hbeyond, -⟩⟩ := mem_lowerFrom hx
  · exact isAscii_of_mem_lowerChar (hs c hc) hx
  · rw [hs c hc] at hbeyond
    cases hbeyond

theorem isAscii_of_mem_upper {s : List Char} (hs : ∀ c ∈ s, isAscii c = true) {x : Char}
    (hx : x ∈ upper s) : isAscii x = true := by
  obtain ⟨c, hc, hx⟩ := List.mem_flatMap.mp hx
  exact isAscii_of_mem_upperChar (hs c hc) hx

theorem lower_ne_nil {s : List Char} (hs : s ≠ []) : lower s ≠ [] := by
  obtain ⟨c, rest, rfl⟩ := List.exists_cons_of_ne_nil hs
  rw [lower, lowerFrom]
  split_ifs <;> simp [lowerChar_ne_nil]

end GodotLint.Text
