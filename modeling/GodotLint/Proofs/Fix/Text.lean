import GodotLint.Proofs.Fix.Replacement
import GodotLint.Proofs.Text.LineEnds
import GodotLint.Proofs.Text.Lines

/-!
# Fixing a text

How a fixer of lines acts on a text. Nothing is changed exactly when every line is kept as it is
(`changes_eq_nil_iff`), and a fixer that keeps every line, changed or not, without bringing in line
ends, gives the text whose lines are the changed ones (`lines_apply_of_map`). The fix of
dictionary accesses is of this kind (`lines_dictAccess`).

A text whose line ends are all alike (`IsUniform`) is made of its lines and the line end that a fixer
takes it to have (`textLines_eq_withEnds`). So the fixed text is made of the old lines, each revised
as the changes say, with their own ends; only the last one has the end of the last line of the old
text (`text_apply_eq_join`).
-/

namespace GodotLint.Fixer

open Text Script Pattern

variable {f : Fixer} {text : List Char}

/-! ## Changes -/

theorem change?_eq_none_iff {n : Nat} {before : List Char} {after : Option (List Char)} :
    change? n before after = none ↔ after = some before := by
  simp [change?]

/-- The changes of a text are those of its lines. -/
theorem changes_apply (f : Fixer) (text : List Char) : (f.apply text).changes =
    (((lines text).zip (f.revise (lines text))).zipIdx 1).filterMap
      fun ((before, after), line) => change? line before after := by
  rw [apply]
  simp only
  split_ifs <;> rfl

/-- Nothing is changed exactly when every line is kept as it is. -/
theorem changes_eq_nil_iff : (f.apply text).changes = [] ↔
    ∀ x ∈ (lines text).zip (f.revise (lines text)), x.2 = some x.1 := by
  rw [changes_apply, List.filterMap_eq_nil_iff]
  constructor
  · intro h x hx
    rw [← List.zipIdx_map_fst 1 ((lines text).zip _)] at hx
    obtain ⟨y, hy, rfl⟩ := List.mem_map.mp hx
    exact change?_eq_none_iff.mp (h y hy)
  · intro h x hx
    exact change?_eq_none_iff.mpr (h x.1 (List.fst_mem_of_mem_zipIdx hx))

/-- The changes are those of the lines for which there is a new line or none. -/
theorem mem_changes_iff {c : LineChange} : c ∈ (f.apply text).changes ↔
    ∃ i before after, (lines text)[i]? = some before ∧ (f.revise (lines text))[i]? = some after ∧
      after ≠ some before ∧ c = ⟨i + 1, before, after⟩ := by
  rw [changes_apply, List.mem_filterMap]
  constructor
  · rintro ⟨⟨⟨before, after⟩, n⟩, hx, hc⟩
    rw [List.mk_mem_zipIdx_iff_le_and_getElem?_sub, List.getElem?_zip_eq_some] at hx
    simp only [change?, beq_iff_eq] at hc
    split_ifs at hc with hafter
    refine ⟨n - 1, before, after, hx.2.1, hx.2.2, hafter, ?_⟩
    rw [Nat.sub_add_cancel hx.1]
    exact (Option.some_inj.mp hc).symm
  · rintro ⟨i, before, after, hbefore, hafter, hne, rfl⟩
    refine ⟨⟨⟨before, after⟩, i + 1⟩, ?_, by simp [change?, hne]⟩
    rw [List.mk_mem_zipIdx_iff_le_and_getElem?_sub, List.getElem?_zip_eq_some]
    exact ⟨by omega, hbefore, hafter⟩

/-- The changes are told in the order of the lines. -/
theorem pairwise_changes (f : Fixer) (text : List Char) :
    (f.apply text).changes.Pairwise fun a b => a.line < b.line := by
  have horder : (((lines text).zip (f.revise (lines text))).zipIdx 1).Pairwise
      fun x y => x.2 < y.2 := by
    rw [← List.pairwise_map, List.zipIdx_map_snd]
    exact List.pairwise_lt_range'
  rw [changes_apply]
  refine List.Pairwise.filterMap _ ?_ horder
  rintro ⟨⟨before, after⟩, n⟩ ⟨⟨before', after'⟩, n'⟩ hlt c hc c' hc'
  simp only [change?, Option.ite_none_left_eq_some, Option.some.injEq] at hc hc'
  obtain ⟨-, rfl⟩ := hc
  obtain ⟨-, rfl⟩ := hc'
  exact hlt

/-- The change of a line that a number is of, found among all. -/
theorem find?_changes {i : Nat} {before : List Char} {after : Option (List Char)}
    (hbefore : (lines text)[i]? = some before) (hafter : (f.revise (lines text))[i]? = some after) :
    (f.apply text).changes.find? (·.line == i + 1) = change? (i + 1) before after := by
  have honly : ∀ c ∈ (f.apply text).changes, c.line = i + 1 →
      after ≠ some before ∧ c = ⟨i + 1, before, after⟩ := by
    intro c hc hline
    obtain ⟨j, b, a, hb, ha, hne, rfl⟩ := mem_changes_iff.mp hc
    obtain rfl : j = i := by simpa using hline
    obtain rfl : b = before := Option.some_inj.mp (hb.symm.trans hbefore)
    obtain rfl : a = after := Option.some_inj.mp (ha.symm.trans hafter)
    exact ⟨hne, rfl⟩
  by_cases hkept : after = some before
  · rw [change?_eq_none_iff.mpr hkept, List.find?_eq_none]
    intro c hc hline
    exact (honly c hc (by simpa using hline)).1 hkept
  · have hmem : ⟨i + 1, before, after⟩ ∈ (f.apply text).changes :=
      mem_changes_iff.mpr ⟨i, before, after, hbefore, hafter, hkept, rfl⟩
    obtain ⟨c, hc⟩ := Option.isSome_iff_exists.mp
      (List.find?_isSome.mpr ⟨_, hmem, by simp⟩ :
        ((f.apply text).changes.find? (·.line == i + 1)).isSome = true)
    have hline : c.line = i + 1 := by simpa using List.find?_some hc
    rw [hc, (honly c (List.mem_of_find?_eq_some hc) hline).2]
    simp [change?, hkept]

/-- A text in which nothing is changed stays as it is. -/
theorem apply_eq_self_iff : f.apply text = ⟨text, []⟩ ↔ (f.apply text).changes = [] := by
  constructor
  · intro h
    rw [h]
  · intro h
    have hchanges := h
    rw [changes_apply] at h
    rw [apply]
    simp only [h, List.isEmpty_nil, if_true]

/-- The line end of a text is one. -/
theorem isLineEnd_lineEnd (text : List Char) : IsLineEnd (lineEnd text) := by
  rw [lineEnd]
  split_ifs
  · exact .inr rfl
  · exact .inl rfl

/-- Lines of a text are laid for its line end. -/
theorem laid_lineEnd (text : List Char) :
    Laid (lineEnd text) (endsWithLineFeed text) (lines text) := by
  refine laid_lines (isLineEnd_lineEnd text) text fun h => ?_
  rw [lineEnd] at h
  split_ifs at h with hcontains
  · cases h
  · simpa using hcontains

/-- A text in which something is changed is made of the lines that are kept. -/
theorem text_apply (h : (f.apply text).changes ≠ []) : (f.apply text).text =
    join (lineEnd text) ((f.revise (lines text)).filterMap fun line => line) ++
      if endsWithLineFeed text then lineEnd text else [] := by
  rw [changes_apply] at h
  rw [apply]
  simp only [List.isEmpty_iff, h, if_false]

/-! ## Fixers that keep every line -/

/-- Nothing is changed exactly when the function leaves every line as it is. -/
theorem changes_eq_nil_iff_of_map {g : List Char → List Char}
    (hrevise : ∀ ls, f.revise ls = ls.map fun l => some (g l)) :
    (f.apply text).changes = [] ↔ ∀ l ∈ lines text, g l = l := by
  rw [changes_eq_nil_iff, hrevise, ← List.map_prod_left_eq_zip]
  simp

/-- A fixer that keeps every line, changed or not, gives the text of the changed lines. -/
theorem lines_apply_of_map {g : List Char → List Char}
    (hrevise : ∀ ls, f.revise ls = ls.map fun l => some (g l))
    (hfeed : ∀ l, '\n' ∉ l → '\n' ∉ g l) (hnil : ∀ l, g l = [] → l = [])
    (hreturn : ∀ l, (g l).getLast? = some '\r' → l.getLast? = some '\r') (text : List Char) :
    lines (f.apply text).text = (lines text).map g := by
  by_cases h : (f.apply text).changes = []
  · have hself : ∀ l ∈ lines text, g l = l := changes_eq_nil_iff_of_map hrevise |>.mp h
    rw [apply_eq_self_iff.mpr h, List.map_congr_left hself, List.map_id']
  · have hkept : (f.revise (lines text)).filterMap (fun line => line) = (lines text).map g := by
      rw [hrevise, List.filterMap_map, ← List.filterMap_eq_map]
      rfl
    rw [text_apply h, hkept, ((laid_lineEnd text).map hfeed hreturn).lines_eq]
    exact reread_map hnil (reread_lines text)

/-! ## The fix of dictionary accesses -/

section dictAccess

variable {pre post : List Char} {ps : List (Placed Subscript)}

/-- The parts of a line after the fix: its code with the open reads rewritten, and the comment. -/
theorem exists_fixedLine_eq (line : List Char) : ∃ ps comment,
    Scan Subscript.text [] (Line.code line) ps ∧ line = Line.code line ++ comment ∧
      Line.Unmarked .outside (Line.code line) ∧
      Line.Closes (Quoting.read .outside (Line.code line)) comment ∧
      fixedLine line = spliced [] (Line.code line) ps ++ comment := by
  obtain ⟨comment, hline, hcode, hcomment⟩ := Line.code_spec line
  obtain ⟨ps, hps⟩ := spells_bracketAccess.exists_scan (Line.code line)
  exact ⟨ps, comment, hps, hline, hcode, hcomment, replaceAccesses_eq_spliced hline hcomment hps 0⟩

/-- No default has a line feed. -/
theorem feed_not_mem_expression (d : KeyDefault) : '\n' ∉ d.expression.toList := by
  cases d <;> decide

/-- No line feed comes in with a call. -/
theorem feed_not_mem_callFor {a : Subscript} (h : '\n' ∉ a.text) : '\n' ∉ callFor a := by
  simp only [Subscript.text, Subscript.tail, QuotedKey.text, List.mem_append, List.mem_cons,
    not_or] at h
  have hexpression := feed_not_mem_expression (KeyDefault.ofKey (str a.quoted.key))
  rw [callFor_eq]
  simp only [List.mem_append, not_or]
  exact ⟨h.1, by decide, by tauto, by decide, hexpression, by decide⟩

/-- No line feed comes in with the fix. -/
theorem feed_not_mem_spliced (h : Row Subscript.text pre post ps) (hpost : '\n' ∉ post) :
    '\n' ∉ spliced pre post ps := by
  induction h with
  | nil => exact hpost
  | @cons pre gap rest after a ps _ ih =>
      simp only [List.mem_append, not_or] at hpost
      rw [spliced_cons]
      simp only [List.mem_append, not_or]
      refine ⟨⟨hpost.1.1, ?_⟩, ih hpost.2⟩
      rw [rewritten]
      split_ifs
      · exact feed_not_mem_callFor hpost.1.2
      · exact hpost.1.2

/-- What a subscript becomes is not empty. -/
theorem rewritten_ne_nil (x : Placed Subscript) : rewritten x ≠ [] := by
  obtain ⟨c, r, hreceiver, -⟩ := exists_cons_of_isPath x.token.isPath
  obtain ⟨t, ht⟩ := exists_rewritten_eq x
  simp [ht, hreceiver]

/-- Only the empty text becomes empty. -/
theorem spliced_eq_nil_iff (h : Row Subscript.text pre post ps) :
    spliced pre post ps = [] ↔ post = [] := by
  cases h with
  | nil => rfl
  | cons _ =>
      rw [spliced_cons]
      simp [rewritten_ne_nil, Subscript.text_ne_nil]

/-- What a subscript becomes ends with one of the closing brackets. -/
theorem exists_rewritten_eq_append (x : Placed Subscript) :
    ∃ t c, rewritten x = t ++ [c] ∧ (c = ')' ∨ c = ']') := by
  rw [rewritten]
  split_ifs
  · refine ⟨x.token.receiver ++ (".get(\"".toList ++ (x.token.quoted.key ++ ("\", ".toList ++
      (KeyDefault.ofKey (str x.token.quoted.key)).expression.toList))), ')', ?_, .inl rfl⟩
    rw [callFor_eq]
    simp
  · refine ⟨x.token.receiver ++ (x.token.gap ++ '[' :: (x.token.opening ++ x.token.quoted.text ++
      x.token.closing)), ']', ?_, .inr rfl⟩
    simp [Subscript.text, Subscript.tail]

/-- A text ends as before, unless it ends with a bracket. -/
theorem getLast?_spliced (h : Row Subscript.text pre post ps) {c : Char}
    (hc : c ≠ ')' ∧ c ≠ ']') (hlast : (spliced pre post ps).getLast? = some c) :
    post.getLast? = some c := by
  induction h with
  | nil => exact hlast
  | @cons pre gap rest after a ps later ih =>
      rw [spliced_cons] at hlast
      by_cases hrest : rest = []
      · rw [(spliced_eq_nil_iff later).mpr hrest, List.append_nil] at hlast
        obtain ⟨t, d, ht, hd⟩ := exists_rewritten_eq_append ⟨pre ++ gap, a, after⟩
        rw [ht, ← List.append_assoc, List.getLast?_concat, Option.some.injEq] at hlast
        subst hlast
        exact absurd hd (not_or.mpr hc)
      · have hout := mt (spliced_eq_nil_iff later).mp hrest
        rw [List.getLast?_append_of_ne_nil _ hout] at hlast
        rw [List.getLast?_append_of_ne_nil _ hrest]
        exact ih hlast

/-- The fix works on each line by itself. -/
theorem revise_dictAccess (ls : List (List Char)) :
    dictAccess.revise ls = ls.map fun line => some (fixedLine line) := by
  have hfst : ls.map (fun line => some (fixedLine line)) =
      ((ls.zipIdx 1).map Prod.fst).map fun line => some (fixedLine line) := by
    rw [List.zipIdx_map_fst]
  rw [hfst, List.map_map]
  refine List.map_congr_left fun x _ => ?_
  simp only [replaceAccesses_eq_fixedLine, Function.comp_apply]

/-- No line feed comes into a line with the fix. -/
theorem feed_not_mem_fixedLine (line : List Char) (h : '\n' ∉ line) : '\n' ∉ fixedLine line := by
  obtain ⟨ps, comment, hps, hline, -, -, hfixed⟩ := exists_fixedLine_eq line
  rw [hline, List.mem_append, not_or] at h
  rw [hfixed, List.mem_append, not_or]
  exact ⟨feed_not_mem_spliced hps.row h.1, h.2⟩

/-- Only the empty line becomes empty. -/
theorem eq_nil_of_fixedLine (line : List Char) (h : fixedLine line = []) : line = [] := by
  obtain ⟨ps, comment, hps, hline, -, -, hfixed⟩ := exists_fixedLine_eq line
  rw [hfixed, List.append_eq_nil_iff] at h
  rw [hline, (spliced_eq_nil_iff hps.row).mp h.1, h.2]
  rfl

/-- A carriage return at the end of a fixed line was there before. -/
theorem getLast?_fixedLine (line : List Char) (h : (fixedLine line).getLast? = some '\r') :
    line.getLast? = some '\r' := by
  obtain ⟨ps, comment, hps, hline, -, -, hfixed⟩ := exists_fixedLine_eq line
  rw [hfixed] at h
  rw [hline]
  cases comment with
  | nil =>
      rw [List.append_nil] at h ⊢
      exact getLast?_spliced hps.row (by decide) h
  | cons c comment =>
      rw [List.getLast?_append_of_ne_nil _ (List.cons_ne_nil _ _)] at h ⊢
      exact h

/-- The lines of the fixed text are the fixed lines. -/
theorem lines_dictAccess (text : List Char) :
    lines (dictAccess.apply text).text = (lines text).map fixedLine :=
  lines_apply_of_map revise_dictAccess feed_not_mem_fixedLine eq_nil_of_fixedLine
    getLast?_fixedLine text

/-! ## What stays as it is -/

/-- The call is told from the subscript by what follows the receiver. -/
theorem callFor_append_ne (a : Subscript) (s t : List Char) : callFor a ++ s ≠ a.text ++ t := by
  intro h
  rw [callFor_eq, Subscript.text, List.append_assoc, List.append_assoc a.receiver,
    List.append_cancel_left_eq] at h
  exact a.stopsAt_tail t '.' _ h.symm rfl

/-- A text stays as it is exactly when none of its tokens is open. -/
theorem spliced_eq_self_iff (h : Row Subscript.text pre post ps) :
    spliced pre post ps = post ↔ ∀ x ∈ ps, isOpen x = false := by
  induction h with
  | nil => simp
  | @cons pre gap rest after a ps _ ih =>
      rw [spliced_cons, List.forall_mem_cons, ← ih, rewritten]
      generalize spliced (pre ++ gap ++ a.text) rest ps = out
      rw [List.append_assoc, List.append_assoc, List.append_cancel_left_eq]
      cases isOpen ⟨pre ++ gap, a, after⟩
      · simp
      · simp [callFor_append_ne]

/-- A line stays as it is exactly when it has no open read. -/
theorem fixedLine_eq_self_iff (line : List Char) : fixedLine line = line ↔ openReads line = [] := by
  obtain ⟨ps, comment, hps, hline, -, -, hfixed⟩ := exists_fixedLine_eq line
  have hself : fixedLine line = line ↔ fixedLine line = Line.code line ++ comment := by rw [← hline]
  rw [hself, hfixed, List.append_cancel_right_eq, spliced_eq_self_iff hps.row, openReads_eq hps]
  simp

end dictAccess

end GodotLint.Fixer

namespace GodotLint.Fixer

open Text

variable {f : Fixer} {text : List Char}

/-! ## Line ends -/

/-- The line ends of a text are all bare line feeds, or all with a carriage return. -/
def IsUniform (text : List Char) : Prop :=
  EndsAlike ['\n'] (textLines text) ∨ EndsAlike ['\r', '\n'] (textLines text)

instance (text : List Char) : Decidable (IsUniform text) := inferInstanceAs (Decidable (_ ∨ _))

/-- The line end that the fix takes a text to have is that of all its lines. -/
theorem endsAlike_lineEnd (h : IsUniform text) : EndsAlike (lineEnd text) (textLines text) := by
  rw [lineEnd]
  rcases h with h | h
  · have hnone : ¬ contains ['\r', '\n'] text = true := by
      rw [contains_return_iff]
      rintro ⟨l, hl, hending⟩
      rcases h l hl with hl' | hl' <;> simp [hending] at hl'
    rw [if_neg hnone]
    exact h
  · split_ifs with hreturn
    · exact h
    · intro l hl
      refine .inl ((h l hl).resolve_right fun hending => hreturn ?_)
      exact contains_return_iff.mpr ⟨l, hl, hending⟩

/-- The lines of a uniform text with their ends. -/
theorem textLines_eq_withEnds (h : IsUniform text) : textLines text =
    withEnds (lineEnd text) (if endsWithLineFeed text then lineEnd text else []) (lines text) := by
  have hlines := (laid_lineEnd text).textLines_eq (reread_lines text)
  rwa [← eq_join_of_endsAlike (endsAlike_lineEnd h)] at hlines

/-! ## Changes to lines -/

/-- A line of a text as the changes say, none if it is removed. -/
def revisedLine? (changes : List LineChange) (number : Nat) (l : EndedLine Char) :
    Option (EndedLine Char) :=
  match changes.find? (·.line == number) with
  | none => some l
  | some c => l.revised c.after

/-- Every fixer has a new line or none for each line. -/
theorem length_revise (hf : f ∈ Fixer.all) (ls : List (List Char)) :
    (f.revise ls).length = ls.length := by
  simp only [Fixer.all, List.mem_cons, List.not_mem_nil, or_false] at hf
  rcases hf with rfl | rfl
  · simp [dictAccess]
  · simp [unusedPreloads]

/-- The lines as the changes say are the new lines with the old ends. -/
theorem filterMap_revisedLine? (hf : f ∈ Fixer.all) (text : List Char) :
    ((textLines text).zipIdx 1).filterMap (fun x => revisedLine? (f.apply text).changes x.2 x.1) =
      revisions (textLines text) (f.revise (lines text)) := by
  have hlen : (lines text).length = (textLines text).length := by
    rw [← map_line_textLines, List.length_map]
  have hmap : ((textLines text).zipIdx 1).map
      (fun x => revisedLine? (f.apply text).changes x.2 x.1) =
        ((textLines text).zip (f.revise (lines text))).map fun x => x.1.revised x.2 := by
    refine List.ext_getElem (by simp [length_revise hf, hlen]) fun i hi hi' => ?_
    simp only [List.length_map, List.length_zipIdx] at hi
    have hline : (lines text)[i]? = some ((textLines text)[i]).line := by
      rw [← map_line_textLines, List.getElem?_map, List.getElem?_eq_getElem hi]
      rfl
    have hnew := List.getElem?_eq_getElem (l := f.revise (lines text)) (i := i)
      (by rw [length_revise hf]; omega)
    have hfind := find?_changes hline hnew
    simp only [List.getElem_map, List.getElem_zipIdx, List.getElem_zip, revisedLine?]
    rw [Nat.add_comm 1 i, hfind, change?]
    split_ifs with hkept
    · rw [beq_iff_eq] at hkept
      rw [hkept]
      rfl
    · rfl
  have hfilter := congrArg (List.filterMap fun x => x) hmap
  rw [List.filterMap_map, List.filterMap_map] at hfilter
  exact hfilter

/-- A uniform text in which something is changed becomes its lines as the changes say, the last one
with the end of the last line. -/
theorem text_apply_eq_join (hf : f ∈ Fixer.all) (h : IsUniform text)
    (hchanges : (f.apply text).changes ≠ []) :
    (f.apply text).text = EndedLine.join (lastEnding (textLines text))
      (((textLines text).zipIdx 1).filterMap fun x =>
        revisedLine? (f.apply text).changes x.2 x.1) := by
  have hne : lines text ≠ [] := by
    intro hnil
    rw [changes_apply, hnil] at hchanges
    exact hchanges rfl
  rw [text_apply hchanges, filterMap_revisedLine? hf, textLines_eq_withEnds h,
    lastEnding_withEnds hne, join_revisions_withEnds (length_revise hf _)]

end GodotLint.Fixer
