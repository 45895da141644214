import GodotLint.Proofs.Ordering
import GodotLint.Proofs.Pattern.Occurrences
import GodotLint.Proofs.Pattern.Parts
import GodotLint.Proofs.Script.Comments
import Mathlib.Data.Nat.Find
import Mathlib.Order.Interval.Set.Basic

/-!
# Ranges of functions

The body of a function is found by a scan of its own, which looks only at how deep the lines below the
header are indented; lines without code have no depth (`Line.depth?`). The scan takes the lines up to
the last one with code before the first that is no deeper than the header (`isBody_bodyLength`). This
alone settles how ranges lie to each other: the code of an inner function is deeper than the header of
the outer one, so the outer range cannot stop within the inner one (`IsExtent.endLine_le_of_mem`). Ranges
are therefore nested or apart, and the last header above a line whose range contains the line is that of
the innermost function (`isOutline_ofLines`).
-/

namespace GodotLint

open Text

namespace Line

/-- Only what stands before the first visible character counts as indentation. -/
theorem indent_append_cons {c : Char} (hc : isBlank c = false) (u rest : List Char) :
    indent (u ++ c :: rest) = indent u := by
  induction u with
  | nil =>
      have hspace : c ≠ ' ' := by
        rintro rfl
        cases hc
      have htab : c ≠ '\t' := by
        rintro rfl
        cases hc
      simp [indent, hspace, htab]
  | cons d u ih =>
      by_cases hspace : d = ' '
      · subst hspace
        simp [indent, ih]
      by_cases htab : d = '\t'
      · subst htab
        simp [indent, ih]
      · simp [indent, hspace, htab]

/-- How deep the code of a line is indented, if it has code. -/
def depth? (line : List Char) : Option Nat :=
  if isBlankOrComment line then none else some (indent line)

end Line

namespace Function

open Pattern

/-! ## Bodies -/

/-- How deep the code on a line is indented, the lines counted from one, if it has code. -/
def depthAt? (lines : List (List Char)) : (number : Nat) → Option Nat
  | 0 => none
  | n + 1 => lines[n]?.bind Line.depth?

@[simp] theorem depthAt?_zero (lines : List (List Char)) : depthAt? lines 0 = none := rfl

@[simp] theorem depthAt?_cons_one (line : List Char) (lines : List (List Char)) :
    depthAt? (line :: lines) 1 = Line.depth? line := rfl

@[simp] theorem depthAt?_cons_add_two (line : List Char) (lines : List (List Char)) (n : Nat) :
    depthAt? (line :: lines) (n + 2) = depthAt? lines (n + 1) := rfl

theorem depthAt?_append_add {a b : List (List Char)} (n : Nat) :
    depthAt? (a ++ b) (a.length + (n + 1)) = depthAt? b (n + 1) := by
  rw [← Nat.add_assoc, depthAt?, depthAt?, List.getElem?_append_right (Nat.le_add_right ..),
    Nat.add_sub_cancel_left]

/-- The first `n` lines below a header are its body. -/
structure IsBody (headerIndent : Nat) (below : List (List Char)) (n : Nat) : Prop where
  le_length : n ≤ below.length
  /-- All code in the body is deeper than the header, ... -/
  deeper : ∀ m ≤ n, ∀ d, depthAt? below m = some d → headerIndent < d
  /-- ... the last line has code, ... -/
  ends : n ≠ 0 → (depthAt? below n).isSome = true
  /-- ... and the first code behind it is not deeper. -/
  stops : ∀ m, n < m → (∀ l, n < l → l < m → depthAt? below l = none) →
    ∀ d, depthAt? below m = some d → d ≤ headerIndent

section body

variable {headerIndent n : Nat} {line : List Char} {below : List (List Char)}

/-- Above a line that is indented no deeper than the header, there is no body. -/
theorem isBody_zero_of_le {d : Nat} (hline : Line.depth? line = some d) (hle : d ≤ headerIndent) :
    IsBody headerIndent (line :: below) 0 := by
  refine ⟨Nat.zero_le _, ?_, fun h => absurd rfl h, ?_⟩
  · rintro _ (_ | _) _ ⟨⟩
  · rintro (_ | _ | m) hm hnone e he
    · cases he
    · cases hline.symm.trans he
      exact hle
    · cases hline.symm.trans (hnone 1 (by omega) (by omega))

/-- A line without code is not enough for a body. -/
theorem IsBody.skip (h : IsBody headerIndent below 0) (hline : Line.depth? line = none) :
    IsBody headerIndent (line :: below) 0 := by
  refine ⟨Nat.zero_le _, ?_, fun h => absurd rfl h, ?_⟩
  · rintro _ (_ | _) _ ⟨⟩
  · rintro (_ | _ | m) hm hnone d hd
    · cases hd
    · cases hline.symm.trans hd
    · refine h.stops (m + 1) (by omega) ?_ d hd
      rintro (_ | l) hl hlm
      · rfl
      · exact hnone (l + 2) (by omega) (by omega)

/-- A line belongs to the body if it is indented deeper than the header, and a line without code if the body
goes on below it. -/
theorem IsBody.cons (h : IsBody headerIndent below n)
    (hdeeper : ∀ d, Line.depth? line = some d → headerIndent < d)
    (hends : n = 0 → (Line.depth? line).isSome = true) :
    IsBody headerIndent (line :: below) (n + 1) := by
  refine ⟨Nat.succ_le_succ h.le_length, ?_, ?_, ?_⟩
  · rintro (_ | _ | m) hm d hd
    · cases hd
    · exact hdeeper d hd
    · exact h.deeper (m + 1) (by omega) d hd
  · rintro -
    cases n with
    | zero => exact hends rfl
    | succ n => exact h.ends (Nat.succ_ne_zero n)
  · rintro (_ | _ | m) hm hnone d hd
    · cases hd
    · omega
    · refine h.stops (m + 1) (by omega) ?_ d hd
      rintro (_ | l) hl hlm
      · rfl
      · exact hnone (l + 2) (by omega) (by omega)

/-- The length of a body is what its name says, however the lines are indented. -/
theorem isBody_bodyLength (headerIndent : Nat) (below : List (List Char)) :
    IsBody headerIndent below (bodyLength headerIndent below) := by
  induction below with
  | nil =>
      refine ⟨le_rfl, ?_, fun h => absurd rfl h, ?_⟩
      · rintro _ (_ | _) _ ⟨⟩
      · rintro (_ | m) - - d hd <;> cases hd
  | cons line below ih =>
      rw [bodyLength]
      split_ifs with hblank hindent
      · have hline : Line.depth? line = none := if_pos hblank
        split
        · rename_i hn
          exact (hn ▸ ih).skip hline
        · rename_i n hn
          exact (hn ▸ ih).cons (by simp [hline]) (fun h => absurd h n.succ_ne_zero)
      · exact isBody_zero_of_le (if_neg hblank) hindent
      · have hline : Line.depth? line = some (Line.indent line) := if_neg hblank
        refine ih.cons ?_ (fun _ => by simp [hline])
        rintro d hd
        cases hline.symm.trans hd
        exact not_le.mp hindent

end body

/-! ## Headers -/

/-- A header starts with its indentation, which is the first group. -/
theorem exists_append_of_find?_header {code : List Char} {m : Match}
    (h : header.find? code = some m) :
    ∃ c rest, code = m.group 1 ++ c :: rest ∧ isBlank c = false := by
  obtain ⟨pre, w, post, gs, rfl, hacc, rfl⟩ := find?_eq_some h
  unfold header at hacc
  simp only [accepts_append_assoc] at hacc
  obtain ⟨rfl, hacc⟩ := accepts_atStart_append.mp hacc
  obtain ⟨u, v, gu, gv, rfl, rfl, hu, hv⟩ := accepts_append.mp hacc
  obtain ⟨g, hblanks, rfl⟩ := accepts_group.mp hu
  obtain ⟨-, rfl⟩ := accepts_blanks.mp hblanks
  have hgroup : (Match.of [] (u ++ v) post (gv ++ [(1, ⟨width [], u⟩)])).group 1 = u := by
    have hother : gv.lookup 1 = none := lookup_eq_none_of_accepts hv (by decide)
    simp [Match.group, Match.group?, List.lookup_append, hother]
  obtain ⟨s, t, _, _, rfl, rfl, hs, ht⟩ := accepts_append.mp hv
  obtain ⟨_, t, rfl, rfl, -⟩ := (accepts_append_of_left fun _ _ _ _ => accepts_lit).mp ht
  rw [hgroup]
  -- what follows the indentation is `static` or `func`
  rcases accepts_opt.mp hs with hstatic | ⟨rfl, -⟩
  · obtain ⟨_, hstatic, -⟩ := accepts_group.mp hstatic
    obtain ⟨_, s, rfl, rfl, -⟩ := (accepts_append_of_left fun _ _ _ _ => accepts_lit).mp hstatic
    exact ⟨'s', "tatic".toList ++ (s ++ ("func".toList ++ t)) ++ post, by simp, by decide⟩
  · exact ⟨'f', "unc".toList ++ t ++ post, by simp, by decide⟩

/-- A header has code, which is indented as deep as its function. -/
theorem depth?_of_ofHeader? {above below : List (List Char)} {number : Nat} {line : List Char} {f : Function}
    (h : ofHeader? above number line below = some f) : Line.depth? line = some f.indent := by
  obtain ⟨m, hm, rfl⟩ := Option.map_eq_some_iff.mp h
  obtain ⟨c, rest, hcode, hc⟩ := exists_append_of_find?_header hm
  have hblank : Line.isBlankOrComment line = false := by
    simp [Line.isBlankOrComment, isAllBlank, hcode, hc]
  have hindent : Line.indent line = Line.indent (m.group 1) := by
    rw [← Line.indent_code hblank, hcode, Line.indent_append_cons hc]
  simp [Line.depth?, hblank, hindent]

variable {lines : List (List Char)} {f g : Function}

/-- The range of a function in a script. -/
structure IsExtent (lines : List (List Char)) (f : Function) : Prop where
  /-- The header has code, and the function is as deep as that. -/
  header : depthAt? lines f.line = some f.indent
  le_endLine : f.line + f.bodyLines = f.endLine
  endLine_le : f.endLine ≤ lines.length
  /-- Code between the header and the end is deeper than the header. -/
  deeper : ∀ n, f.line < n → n ≤ f.endLine → ∀ d, depthAt? lines n = some d → f.indent < d
  /-- The function ends with code. -/
  ends : f.line < f.endLine → (depthAt? lines f.endLine).isSome = true
  /-- The first code behind the end is no deeper than the header. -/
  stops : ∀ n, f.endLine < n → (∀ m, f.endLine < m → m < n → depthAt? lines m = none) →
    ∀ d, depthAt? lines n = some d → d ≤ f.indent

/-- The functions among lines are those of the headers. -/
theorem mem_scan_iff {up : List (List Char)} {number : Nat} :
    f ∈ scan up number lines ↔ ∃ above line below, lines = above ++ line :: below ∧
      ofHeader? (above.reverse ++ up) (number + above.length) line below = some f := by
  induction lines generalizing up number with
  | nil => simp [scan]
  | cons first rest ih =>
      rw [scan, List.mem_append, Option.mem_toList, ih]
      constructor
      · rintro (h | ⟨above, line, below, rfl, h⟩)
        · exact ⟨[], first, rest, rfl, h⟩
        · refine ⟨first :: above, line, below, rfl, ?_⟩
          rw [← h, List.reverse_cons, List.append_assoc, List.singleton_append, List.length_cons,
            Nat.add_right_comm, Nat.add_assoc]
      · rintro ⟨above, line, below, hlines, h⟩
        rcases List.cons_eq_append_iff.mp hlines with ⟨rfl, hrest⟩ | ⟨above, rfl, rfl⟩
        · cases hrest
          exact .inl h
        · refine .inr ⟨above, line, below, rfl, ?_⟩
          rw [← h, List.reverse_cons, List.append_assoc, List.singleton_append, List.length_cons,
            Nat.add_right_comm, Nat.add_assoc]

theorem line_of_ofHeader? {above below : List (List Char)} {number : Nat} {line : List Char}
    (h : ofHeader? above number line below = some f) :
    f.line = number ∧ f.endLine = number + bodyLength f.indent below := by
  obtain ⟨m, -, rfl⟩ := Option.map_eq_some_iff.mp h
  simpa using (isBody_bodyLength (Line.indent (m.group 1)) below).le_length

theorem isExtent_of_mem (hf : f ∈ ofLines lines) : IsExtent lines f := by
  obtain ⟨above, line, below, rfl, h⟩ := mem_scan_iff.mp hf
  obtain ⟨hline, hend⟩ := line_of_ofHeader? h
  rw [Nat.add_comm 1] at hline hend
  have hbody := isBody_bodyLength f.indent below
  have hheader : depthAt? (above ++ line :: below) (above.length + 1) = Line.depth? line := by
    simp [depthAt?]
  -- the lines below the header count from the header on
  have hbelow : ∀ n,
      depthAt? (above ++ line :: below) (above.length + 1 + (n + 1)) = depthAt? below (n + 1) := by
    intro n
    have happend := depthAt?_append_add (a := above ++ [line]) (b := below) n
    rwa [List.append_assoc, List.singleton_append, List.length_append, List.length_singleton] at happend
  constructor
  · rw [hline, hheader]
    exact depth?_of_ofHeader? h
  · rw [bodyLines]
    omega
  · have := hbody.le_length
    rw [hend, List.length_append, List.length_cons]
    omega
  · intro n hn hle d hd
    obtain ⟨k, rfl⟩ := Nat.exists_eq_add_of_lt hn
    rw [hline, Nat.add_assoc, hbelow] at hd
    exact hbody.deeper (k + 1) (by omega) d hd
  · intro hlt
    obtain ⟨k, hk⟩ := Nat.exists_eq_add_of_lt hlt
    rw [hk, hline, Nat.add_assoc, hbelow]
    have hk : bodyLength f.indent below = k + 1 := by omega
    exact hk ▸ hbody.ends (by omega)
  · intro n hn hnone d hd
    obtain ⟨k, rfl⟩ := Nat.exists_eq_add_of_lt (lt_of_le_of_lt (by omega : f.line ≤ f.endLine) hn)
    rw [hline, Nat.add_assoc, hbelow] at hd
    refine hbody.stops (k + 1) (by omega) ?_ d hd
    rintro (_ | l) hl hlk
    · rfl
    · rw [← hbelow]
      exact hnone _ (by omega) (by omega)

/-! ## Ranges -/

/-- The lines of a function, header included. -/
def range (f : Function) : Set Nat := Set.Icc f.line f.endLine

theorem contains_iff {n : Nat} : f.contains n = true ↔ n ∈ f.range := by
  simp [contains, range]

/-- A function whose header lies in the range of another one ends in it. -/
theorem IsExtent.endLine_le_of_mem (hf : IsExtent lines f) (hg : IsExtent lines g)
    (hlt : f.line < g.line) (hle : g.line ≤ f.endLine) : g.endLine ≤ f.endLine := by
  by_contra hlater
  rw [not_le] at hlater
  have hindent : f.indent < g.indent := hf.deeper _ hlt hle _ hg.header
  -- the first code behind the end of the outer function belongs to the inner one
  have hcode : ∃ n, f.endLine < n ∧ (depthAt? lines n).isSome = true :=
    ⟨g.endLine, hlater, hg.ends (by omega)⟩
  obtain ⟨hn, hsome⟩ := Nat.find_spec hcode
  obtain ⟨d, hd⟩ := Option.isSome_iff_exists.mp hsome
  have hfirst : Nat.find hcode ≤ g.endLine := Nat.find_min' hcode ⟨hlater, hg.ends (by omega)⟩
  have houter : d ≤ f.indent := by
    refine hf.stops _ hn (fun m hm hlt => ?_) d hd
    have hmin := Nat.find_min hcode hlt
    rw [not_and, Bool.not_eq_true, Option.isSome_eq_false_iff, Option.isNone_iff_eq_none] at hmin
    exact hmin hm
  have hinner : g.indent < d := hg.deeper _ (by omega) hfirst d hd
  omega

theorem IsExtent.laminar_of_lt (hf : IsExtent lines f) (hg : IsExtent lines g) (hlt : f.line < g.line) :
    g.range ⊆ f.range ∨ Disjoint f.range g.range := by
  rcases le_or_gt g.line f.endLine with hle | hbehind
  · exact .inl (Set.Icc_subset_Icc hlt.le (hf.endLine_le_of_mem hg hlt hle))
  · refine .inr (Set.disjoint_left.mpr ?_)
    intro n hn hn'
    exact absurd (hn'.1.trans hn.2) (not_le.mpr hbehind)

theorem pairwise_line_scan {up : List (List Char)} {number : Nat} :
    (scan up number lines).Pairwise (·.line < ·.line) := by
  induction lines generalizing up number with
  | nil => exact List.Pairwise.nil
  | cons line below ih =>
      rw [scan, List.pairwise_append]
      refine ⟨?_, ih, ?_⟩
      · cases ofHeader? up number line below <;> simp
      · intro f hf g hg
        obtain ⟨hline, -⟩ := line_of_ofHeader? (Option.mem_toList.mp hf)
        obtain ⟨above, _, _, -, h⟩ := mem_scan_iff.mp hg
        obtain ⟨hline', -⟩ := line_of_ofHeader? h
        omega

/-- In the order of their headers. -/
theorem pairwise_line_ofLines (lines : List (List Char)) : (ofLines lines).Pairwise (·.line < ·.line) :=
  pairwise_line_scan

/-- Functions are told apart by their headers. -/
theorem eq_of_line_eq {functions : List Function} (hrising : functions.Pairwise (·.line < ·.line))
    (hf : f ∈ functions) (hg : g ∈ functions) (hline : f.line = g.line) : f = g := by
  have hnodup : (functions.map (·.line)).Nodup := by
    rw [List.Nodup, List.pairwise_map]
    exact hrising.imp Nat.ne_of_lt
  exact List.inj_on_of_nodup_map hnodup hf hg hline

/-- A function contains a line and lies in every other function that contains it. -/
structure IsInnermost (functions : List Function) (n : Nat) (f : Function) : Prop where
  mem : f ∈ functions
  contains : n ∈ f.range
  subset : ∀ g ∈ functions, n ∈ g.range → f.range ⊆ g.range

/-- The functions of a script, told by the depth of its lines. -/
structure IsOutline (lines : List (List Char)) (functions : List Function) : Prop where
  /-- The functions stand at the headers, ... -/
  heads : ∀ i (h : i < lines.length),
    (∃ f ∈ functions, f.line = i + 1) ↔ header.occursIn (Line.code lines[i]) = true
  /-- ... in the order of these. -/
  rising : functions.Pairwise (·.line < ·.line)
  extents : ∀ f ∈ functions, IsExtent lines f
  /-- Two functions lie one in the other or apart. -/
  laminar : ∀ f ∈ functions, ∀ g ∈ functions,
    f.range ⊆ g.range ∨ g.range ⊆ f.range ∨ Disjoint f.range g.range
  /-- The function that encloses a line is the innermost one, ... -/
  enclosing : ∀ n f, enclosing? functions n = some f ↔ IsInnermost functions n f
  /-- ... if any contains the line. -/
  enclosing_none : ∀ n, enclosing? functions n = none ↔ ∀ f ∈ functions, n ∉ f.range

theorem exists_line_eq_iff {i : Nat} (h : i < lines.length) :
    (∃ f ∈ ofLines lines, f.line = i + 1) ↔ header.occursIn (Line.code lines[i]) = true := by
  have hsplit : lines = lines.take i ++ lines[i] :: lines.drop (i + 1) := by simp
  constructor
  · rintro ⟨f, hf, hline⟩
    obtain ⟨above, line, below, hlines, hheader⟩ := mem_scan_iff.mp hf
    obtain ⟨hnumber, -⟩ := line_of_ofHeader? hheader
    have hi : i = above.length := by omega
    have hline : lines[i] = line := by simp [hlines, hi]
    obtain ⟨m, hm, -⟩ := Option.map_eq_some_iff.mp hheader
    rw [hline, occursIn, hm]
    rfl
  · intro hoccurs
    obtain ⟨m, hm⟩ := Option.isSome_iff_exists.mp hoccurs
    have hsome : (ofHeader? (lines.take i).reverse (1 + i) lines[i] (lines.drop (i + 1))).isSome = true := by
      rw [ofHeader?, hm]
      rfl
    obtain ⟨f, hf⟩ := Option.isSome_iff_exists.mp hsome
    refine ⟨f, mem_scan_iff.mpr ⟨_, _, _, hsplit, ?_⟩, ?_⟩
    · simpa [h.le] using hf
    · rw [(line_of_ofHeader? hf).1, Nat.add_comm]

theorem enclosing?_eq_none_iff {functions : List Function} {n : Nat} :
    enclosing? functions n = none ↔ ∀ f ∈ functions, n ∉ f.range := by
  simp [enclosing?, lastMax?_eq_none_iff, contains_iff]

/-- The function that encloses a line is the innermost one. -/
theorem isInnermost_of_enclosing? {n : Nat} (h : enclosing? (ofLines lines) n = some f) :
    IsInnermost (ofLines lines) n f := by
  obtain ⟨hmem, hlast⟩ := mem_of_lastMax? h
  obtain ⟨hf, hn⟩ := List.mem_filter.mp hmem
  rw [contains_iff] at hn
  refine ⟨hf, hn, ?_⟩
  intro g hg hgn
  have hle : g.line ≤ f.line := hlast g (List.mem_filter.mpr ⟨hg, contains_iff.mpr hgn⟩)
  rcases hle.lt_or_eq with hlt | heq
  · rcases (isExtent_of_mem hg).laminar_of_lt (isExtent_of_mem hf) hlt with hsubset | hapart
    · exact hsubset
    · exact absurd hn (Set.disjoint_left.mp hapart hgn)
  · rw [eq_of_line_eq (pairwise_line_ofLines lines) hg hf heq]

/-- No two functions are innermost. -/
theorem IsInnermost.eq {n : Nat} (hf : IsInnermost (ofLines lines) n f)
    (hg : IsInnermost (ofLines lines) n g) : f = g := by
  refine eq_of_line_eq (pairwise_line_ofLines lines) hf.mem hg.mem (le_antisymm ?_ ?_)
  · exact (hg.subset f hf.mem hf.contains ⟨le_rfl, hg.contains.1.trans hg.contains.2⟩).1
  · exact (hf.subset g hg.mem hg.contains ⟨le_rfl, hf.contains.1.trans hf.contains.2⟩).1

/-- **The functions of a script are its outline**: every function reaches to where its code ends, and of the
functions around a line one is the innermost. -/
theorem isOutline_ofLines (lines : List (List Char)) : IsOutline lines (ofLines lines) where
  heads := fun _ => exists_line_eq_iff
  rising := pairwise_line_ofLines lines
  extents := fun _ => isExtent_of_mem
  laminar := by
    intro f hf g hg
    have hf' := isExtent_of_mem hf
    have hg' := isExtent_of_mem hg
    rcases lt_trichotomy f.line g.line with hlt | heq | hlt
    · exact .inr (hf'.laminar_of_lt hg' hlt)
    · rw [eq_of_line_eq (pairwise_line_ofLines lines) hf hg heq]
      exact .inl subset_rfl
    · exact (hg'.laminar_of_lt hf' hlt).imp_right fun h => .inr h.symm
  enclosing := by
    intro n f
    refine ⟨isInnermost_of_enclosing?, ?_⟩
    intro hf
    cases hsome : enclosing? (ofLines lines) n with
    | none => exact absurd hf.contains (enclosing?_eq_none_iff.mp hsome f hf.mem)
    | some g => rw [hf.eq (isInnermost_of_enclosing? hsome)]
  enclosing_none := fun _ => enclosing?_eq_none_iff

end Function

end GodotLint
