import Mathlib
import GodotLint.Text.Basic

/-!
# The lines of a text

A text is cut at separators into pieces, and what the pieces on both sides of one separator are
settles the rest (`splitWhere_append_cons`). A text is cut into lines by two equations, one for a
text without a line feed (`lines_of_not_mem`) and one for a text with a first line feed
(`lines_append_feed`). Lines that are put together with
line ends are read back if they are `Laid` for these ends: no line has a line feed, and no line that
a bare line feed ends has a carriage return before it. Only an empty line at the end may be lost or
gained (`Laid.lines_eq`). The lines of a text are so laid, and none is lost (`laid_lines`,
`reread_lines`).
-/

namespace GodotLint.Text

/-- Each line has a number. -/
theorem exists_mem_zipIdx {line : List Char} {lines : List (List Char)} (h : line ∈ lines)
    (first : Nat) : ∃ n, (line, n) ∈ lines.zipIdx first := by
  rw [← List.zipIdx_map_fst first lines] at h
  obtain ⟨⟨_, n⟩, hmem, rfl⟩ := List.mem_map.mp h
  exact ⟨n, hmem⟩

/-! ## Pieces -/

section pieces

variable {p : Char → Bool} {s t x : List Char} {c : Char}

theorem splitWhere_ne_nil (p : Char → Bool) (s : List Char) : splitWhere p s ≠ [] := by
  cases s with
  | nil => simp [splitWhere]
  | cons c s =>
      rw [splitWhere]
      split
      · simp
      · split <;> simp

/-- A text without separators is one piece. -/
theorem splitWhere_of_forall (hs : ∀ c ∈ s, p c = false) : splitWhere p s = [s] := by
  induction s with
  | nil => rfl
  | cons c s ih =>
      rw [splitWhere, hs c (by simp), ih fun d hd => hs d (by simp [hd])]
      rfl

/-- The pieces on both sides of a separator. -/
theorem splitWhere_append_cons (hc : p c = true) (s t : List Char) :
    splitWhere p (s ++ c :: t) = splitWhere p s ++ splitWhere p t := by
  induction s with
  | nil => simp [splitWhere, hc]
  | cons d s ih =>
      rw [List.cons_append, splitWhere, splitWhere, ih]
      by_cases hd : p d = true
      · simp [hd]
      · obtain ⟨piece, pieces, hs⟩ := List.exists_cons_of_ne_nil (splitWhere_ne_nil p s)
        simp [hd, hs]

/-- A text without one character is not cut there. -/
theorem splitAt_of_not_mem (h : c ∉ s) : splitAt c s = [s] := by
  refine splitWhere_of_forall fun d hd => ?_
  rw [beq_eq_false_iff_ne]
  rintro rfl
  exact h hd

/-- The first occurrence of a character ends the first piece. -/
theorem splitAt_append_cons (h : c ∉ s) (t : List Char) :
    splitAt c (s ++ c :: t) = s :: splitAt c t := by
  rw [splitAt, splitWhere_append_cons (by simp)]
  change splitAt c s ++ splitAt c t = s :: splitAt c t
  rw [splitAt_of_not_mem h, List.singleton_append]

/-- Separators at the start of a text bring in no piece that is not empty. -/
theorem mem_splitWhere_of_separators (hs : ∀ c ∈ s, p c = true)
    (h : x ∈ splitWhere p (s ++ t)) : x = [] ∨ x ∈ splitWhere p t := by
  induction s with
  | nil => exact .inr h
  | cons c s ih =>
      have hsplit := splitWhere_append_cons (hs c (by simp)) [] (s ++ t)
      rw [List.nil_append] at hsplit
      rw [List.cons_append, hsplit, List.mem_append] at h
      rcases h with h | h
      · exact .inl (by simpa [splitWhere] using h)
      · exact ih (fun d hd => hs d (by simp [hd])) h

/-- A word, separators and more text have the word and the pieces of that text. -/
theorem mem_splitWhere_of_word {w : List Char} (hw : ∀ c ∈ w, p c = false) (hne : s ≠ [])
    (hs : ∀ c ∈ s, p c = true) (h : x ∈ splitWhere p (w ++ (s ++ t))) :
    x = w ∨ x = [] ∨ x ∈ splitWhere p t := by
  cases s with
  | nil => exact absurd rfl hne
  | cons c s =>
      rw [List.cons_append, splitWhere_append_cons (hs c (by simp)), splitWhere_of_forall hw,
        List.mem_append, List.mem_singleton] at h
      exact h.imp_right (mem_splitWhere_of_separators fun d hd => hs d (by simp [hd]))

end pieces

/-! ## Lines -/

theorem lines_nil : lines [] = [] := rfl

/-- A text without a line feed is one line, or none if it is empty. -/
theorem lines_of_not_mem {s : List Char} (h : '\n' ∉ s) : lines s = if s = [] then [] else [s] := by
  rw [lines, splitAt_of_not_mem h]
  cases s <;> rfl

/-- The first line feed of a text ends its first line. -/
theorem lines_append_feed {s : List Char} (h : '\n' ∉ s) (rest : List Char) :
    lines (s ++ '\n' :: rest) = dropCarriageReturn s :: lines rest := by
  have hne : splitAt '\n' rest ≠ [] := splitWhere_ne_nil _ _
  rw [lines, splitAt_append_cons h, List.dropLast_cons_of_ne_nil hne,
    List.getLast?_cons_of_ne_nil hne, List.map_cons, List.cons_append, lines]

/-- A text that is made of lines has these lines, up to carriage returns at their ends. -/
theorem lines_flatMap_feed {ls : List (List Char)} (h : ∀ l ∈ ls, '\n' ∉ l) :
    lines (ls.flatMap (· ++ ['\n'])) = ls.map dropCarriageReturn := by
  induction ls with
  | nil => rfl
  | cons l ls ih =>
      obtain ⟨hl, hls⟩ := List.forall_mem_cons.mp h
      rw [List.flatMap_cons, List.append_assoc, List.singleton_append, lines_append_feed hl, ih hls,
        List.map_cons]

@[simp] theorem dropCarriageReturn_append (s : List Char) : dropCarriageReturn (s ++ ['\r']) = s := by
  simp [dropCarriageReturn]

/-- Without a carriage return at the end, nothing is dropped. -/
theorem dropCarriageReturn_of_ne {s : List Char} (h : s.getLast? ≠ some '\r') :
    dropCarriageReturn s = s := by
  rw [dropCarriageReturn]
  split
  · rename_i rest hrev
    exact absurd (by rw [List.getLast?_eq_head?_reverse, hrev]; rfl) h
  · rfl

theorem not_mem_dropCarriageReturn {s : List Char} {c : Char} (h : c ∉ s) :
    c ∉ dropCarriageReturn s := by
  rw [dropCarriageReturn]
  split
  · rename_i rest hrev
    intro hc
    have : c ∈ s.reverse := by simp [hrev, List.mem_reverse.mp hc]
    exact h (List.mem_reverse.mp this)
  · exact h

/-! ## Line ends -/

/-- The two line ends. -/
def IsLineEnd (ending : List Char) : Prop := ending = ['\n'] ∨ ending = ['\r', '\n']

/-- Lines that can be told apart once they are put together with an end after each, or after each
but the last. -/
structure Laid (ending : List Char) (ended : Bool) (ls : List (List Char)) : Prop where
  isLineEnd : IsLineEnd ending
  no_feed : ∀ l ∈ ls, '\n' ∉ l
  no_return : ending = ['\n'] → ∀ l ∈ if ended then ls else ls.dropLast, l.getLast? ≠ some '\r'

/-- What lines are read as once they are put together: an empty last line without an end is lost,
and the end of no line is an empty line. -/
def reread (ended : Bool) (ls : List (List Char)) : List (List Char) :=
  if ended then (if ls = [] then [[]] else ls)
  else if ls.getLast? = some [] then ls.dropLast else ls

variable {ending : List Char} {ended : Bool} {l : List Char} {ls : List (List Char)}

/-- A line end ends the line before it. -/
theorem lines_append_end (hending : IsLineEnd ending) (hfeed : '\n' ∉ l)
    (hreturn : ending = ['\n'] → l.getLast? ≠ some '\r') (rest : List Char) :
    lines (l ++ ending ++ rest) = l :: lines rest := by
  rcases hending with rfl | rfl
  · rw [List.append_assoc, List.singleton_append, lines_append_feed hfeed,
      dropCarriageReturn_of_ne (hreturn rfl)]
  · have hmem : '\n' ∉ l ++ ['\r'] := by simp [hfeed]
    have := lines_append_feed hmem rest
    rw [dropCarriageReturn_append] at this
    simpa using this

theorem join_cons {sep : List Char} (hls : ls ≠ []) :
    join sep (l :: ls) = l ++ sep ++ join sep ls := by
  obtain ⟨m, ms, rfl⟩ := List.exists_cons_of_ne_nil hls
  rfl

theorem exists_join_cons (sep l : List Char) (ls : List (List Char)) :
    ∃ rest, join sep (l :: ls) = l ++ rest := by
  by_cases hls : ls = []
  · subst hls
    exact ⟨[], by simp [join]⟩
  · exact ⟨sep ++ join sep ls, by rw [join_cons hls, List.append_assoc]⟩

theorem mem_join {sep : List Char} {c : Char} (h : c ∈ join sep ls) :
    c ∈ sep ∨ ∃ l ∈ ls, c ∈ l := by
  induction ls with
  | nil => cases h
  | cons l ls ih =>
      by_cases hls : ls = []
      · subst hls
        exact .inr ⟨l, List.mem_cons_self, h⟩
      · rw [join_cons hls, List.mem_append, List.mem_append] at h
        rcases h with (h | h) | h
        · exact .inr ⟨l, List.mem_cons_self, h⟩
        · exact .inl h
        · exact (ih h).imp_right fun ⟨m, hm, hc⟩ => ⟨m, List.mem_cons_of_mem l hm, hc⟩

theorem reread_cons (hls : ls ≠ []) : reread ended (l :: ls) = l :: reread ended ls := by
  simp only [reread, hls, reduceCtorEq, if_false, List.getLast?_cons_of_ne_nil hls,
    List.dropLast_cons_of_ne_nil hls]
  split_ifs <;> rfl

/-- No line is lost or gained if there is a line to end, or the last line is not empty. -/
theorem reread_eq_self_iff :
    reread ended ls = ls ↔ if ended then ls ≠ [] else ls.getLast? ≠ some [] := by
  cases ended
  · by_cases h : ls.getLast? = some []
    · obtain ⟨ms, rfl⟩ := List.getLast?_eq_some_iff.mp h
      simp [reread]
    · simp [reread, h]
  · by_cases h : ls = [] <;> simp [reread, h]

/-- Changing lines loses none if no line becomes empty. -/
theorem reread_map {f : List Char → List Char} (hnil : ∀ l, f l = [] → l = [])
    (h : reread ended ls = ls) : reread ended (ls.map f) = ls.map f := by
  rw [reread_eq_self_iff] at h ⊢
  cases ended
  · simp only [Bool.false_eq_true, if_false, List.getLast?_map, ne_eq, Option.map_eq_some_iff,
      not_exists, not_and] at h ⊢
    intro l hl hf
    exact h (hnil l hf ▸ hl)
  · simpa using h

namespace Laid

theorem of_cons (h : Laid ending ended (l :: ls)) (hls : ls ≠ []) : Laid ending ended ls where
  isLineEnd := h.isLineEnd
  no_feed := fun m hm => h.no_feed m (List.mem_cons_of_mem _ hm)
  no_return := by
    intro he m hm
    refine h.no_return he m ?_
    cases ended
    · simp only [Bool.false_eq_true, if_false] at hm ⊢
      rw [List.dropLast_cons_of_ne_nil hls]
      exact List.mem_cons_of_mem _ hm
    · exact List.mem_cons_of_mem _ hm

/-- A line before others is ended. -/
theorem head_no_return (h : Laid ending ended (l :: ls)) (hls : ls ≠ [] ∨ ended = true)
    (he : ending = ['\n']) : l.getLast? ≠ some '\r' := by
  refine h.no_return he l ?_
  cases ended
  · have hne : ls ≠ [] := hls.resolve_right Bool.false_ne_true
    simp [List.dropLast_cons_of_ne_nil hne]
  · simp

theorem cons (hfeed : '\n' ∉ l) (hreturn : ending = ['\n'] → l.getLast? ≠ some '\r')
    (h : Laid ending ended ls) : Laid ending ended (l :: ls) where
  isLineEnd := h.isLineEnd
  no_feed := by
    intro m hm
    rcases List.mem_cons.mp hm with rfl | hm
    · exact hfeed
    · exact h.no_feed m hm
  no_return := by
    intro he m hm
    have hcases : m = l ∨ m ∈ if ended then ls else ls.dropLast := by
      cases ended
      · rcases List.eq_nil_or_concat ls with rfl | ⟨ls, x, rfl⟩
        · simp at hm
        · simpa [List.dropLast_cons_of_ne_nil] using hm
      · simpa using hm
    rcases hcases with rfl | hm
    · exact hreturn he
    · exact h.no_return he m hm

/-- Leaving lines out keeps the others apart. -/
theorem of_sublist {ms : List (List Char)} (h : Laid ending ended ls) (hms : ms.Sublist ls) :
    Laid ending ended ms where
  isLineEnd := h.isLineEnd
  no_feed := fun m hm => h.no_feed m (hms.subset hm)
  no_return := by
    intro he m hm
    refine h.no_return he m ?_
    cases ended
    · have hlast : ms.dropLast.Sublist ls.dropLast := by simpa using hms.reverse.tail.reverse
      exact hlast.subset hm
    · exact hms.subset hm

/-- Changing lines keeps them apart, if no line feed comes in and no carriage return comes to
stand at an end. -/
theorem map {f : List Char → List Char} (h : Laid ending ended ls)
    (hfeed : ∀ l, '\n' ∉ l → '\n' ∉ f l)
    (hreturn : ∀ l, (f l).getLast? = some '\r' → l.getLast? = some '\r') :
    Laid ending ended (ls.map f) where
  isLineEnd := h.isLineEnd
  no_feed := by
    intro m hm
    obtain ⟨l, hl, rfl⟩ := List.mem_map.mp hm
    exact hfeed l (h.no_feed l hl)
  no_return := by
    intro he m hm hlast
    have hmap : m ∈ (if ended then ls else ls.dropLast).map f := by
      cases ended
      · simpa using hm
      · exact hm
    obtain ⟨l, hl, rfl⟩ := List.mem_map.mp hmap
    exact h.no_return he l hl (hreturn l hlast)

/-- **Lines are read back** from the text that is made of them. -/
theorem lines_eq (h : Laid ending ended ls) :
    lines (join ending ls ++ if ended then ending else []) = reread ended ls := by
  induction ls with
  | nil =>
      cases ended
      · rfl
      · have := lines_append_end h.isLineEnd (l := []) (by simp) (by simp) []
        simpa [join, reread, lines_nil] using this
  | cons l ls ih =>
      have hfeed : '\n' ∉ l := h.no_feed l (List.mem_cons_self ..)
      cases ls with
      | nil =>
          cases ended
          · have := lines_of_not_mem hfeed
            simp only [join, reread, Bool.false_eq_true, if_false, List.append_nil, this,
              List.getLast?_singleton, Option.some.injEq, List.dropLast_singleton]
          · have := lines_append_end h.isLineEnd hfeed (h.head_no_return (.inr rfl)) []
            simpa [join, reread, lines_nil] using this
      | cons l' ls =>
          have hne : l' :: ls ≠ [] := List.cons_ne_nil _ _
          have := lines_append_end h.isLineEnd hfeed (h.head_no_return (.inl hne))
            (join ending (l' :: ls) ++ if ended then ending else [])
          rw [ih (h.of_cons hne)] at this
          rw [reread_cons hne, ← this, join_cons hne, List.append_assoc (l ++ ending)]

end Laid

/-! ## The lines of a text -/

/-- A list is reached from one without a separator by putting pieces before it. -/
@[elab_as_elim]
theorem induction_cuts {α : Type} (sep : α) {motive : List α → Prop}
    (last : ∀ s, sep ∉ s → motive s)
    (piece : ∀ l rest, sep ∉ l → motive rest → motive (l ++ sep :: rest)) (s : List α) :
    motive s := by
  classical
  induction hn : s.length using Nat.strong_induction_on generalizing s with
  | _ n ih =>
      by_cases hmem : sep ∈ s
      · obtain ⟨l, rest, rfl, hl⟩ := List.eq_append_cons_of_mem hmem
        refine piece l rest hl (ih rest.length ?_ rest rfl)
        simp only [List.length_append, List.length_cons] at hn
        omega
      · exact last s hmem

/-- A text is reached from one without a line feed by putting lines before it. -/
@[elab_as_elim]
theorem induction_lines {motive : List Char → Prop} (last : ∀ s, '\n' ∉ s → motive s)
    (line : ∀ l rest, '\n' ∉ l → motive rest → motive (l ++ '\n' :: rest)) (s : List Char) :
    motive s :=
  induction_cuts '\n' last line s

theorem endsWithLineFeed_of_not_mem {s : List Char} (h : '\n' ∉ s) :
    endsWithLineFeed s = false := by
  rw [endsWithLineFeed, beq_eq_false_iff_ne]
  exact fun hlast => h (List.mem_of_getLast? hlast)

theorem endsWithLineFeed_append_feed (l : List Char) {rest : List Char} (h : rest ≠ []) :
    endsWithLineFeed (l ++ '\n' :: rest) = endsWithLineFeed rest := by
  rw [endsWithLineFeed, endsWithLineFeed, List.getLast?_append_of_ne_nil _ (List.cons_ne_nil _ _),
    List.getLast?_cons_of_ne_nil h]

theorem endsWithLineFeed_feed (l : List Char) : endsWithLineFeed (l ++ ['\n']) = true := by
  simp [endsWithLineFeed]

/-- Only the empty text has no line. -/
theorem lines_ne_nil {s : List Char} (h : s ≠ []) : lines s ≠ [] := by
  cases s using induction_lines with
  | last s hs => simp [lines_of_not_mem hs, h]
  | line l rest hl _ => simp [lines_append_feed hl]

theorem contains_iff {p s : List Char} : contains p s = true ↔ p <:+: s := by
  induction s with
  | nil => simp [contains, List.isEmpty_iff]
  | cons c s ih =>
      simp only [contains, startsWith, Bool.or_eq_true, List.isPrefixOf_iff_prefix, ih,
        List.infix_cons_iff]

/-- A line before a bare line feed has no carriage return at its end. -/
theorem getLast?_ne_return {rest : List Char}
    (h : contains ['\r', '\n'] (l ++ '\n' :: rest) = false) : l.getLast? ≠ some '\r' := by
  intro hlast
  obtain ⟨u, rfl⟩ := List.getLast?_eq_some_iff.mp hlast
  have : contains ['\r', '\n'] (u ++ ['\r'] ++ '\n' :: rest) = true :=
    contains_iff.mpr ⟨u, rest, by simp⟩
  rw [h] at this
  cases this

/-- The lines of a text can be told apart, with any line end if the text has a line end with a
carriage return, else with a bare line feed. -/
theorem laid_lines (hending : IsLineEnd ending) (s : List Char)
    (h : ending = ['\n'] → contains ['\r', '\n'] s = false) :
    Laid ending (endsWithLineFeed s) (lines s) := by
  induction s using induction_lines with
  | last s hs =>
      rw [endsWithLineFeed_of_not_mem hs, lines_of_not_mem hs]
      refine ⟨hending, ?_, ?_⟩
      · split_ifs <;> simp [hs]
      · by_cases hnil : s = [] <;> simp [hnil]
  | line l rest hl ih =>
      rw [lines_append_feed hl]
      have hfeed := not_mem_dropCarriageReturn hl
      have hreturn : ending = ['\n'] → (dropCarriageReturn l).getLast? ≠ some '\r' := by
        intro he
        have hlast := getLast?_ne_return (h he)
        rwa [dropCarriageReturn_of_ne hlast]
      cases rest with
      | nil =>
          rw [endsWithLineFeed_feed]
          exact .cons hfeed hreturn ⟨hending, by simp [lines_nil], by simp [lines_nil]⟩
      | cons c rest =>
          rw [endsWithLineFeed_append_feed l (List.cons_ne_nil _ _)]
          refine .cons hfeed hreturn (ih fun he => ?_)
          have hnot := h he
          rw [Bool.eq_false_iff, ne_eq, contains_iff] at hnot ⊢
          exact fun hin => hnot (hin.trans ⟨l ++ ['\n'], [], by simp⟩)

/-- No line of a text is lost. -/
theorem reread_lines (s : List Char) : reread (endsWithLineFeed s) (lines s) = lines s := by
  induction s using induction_lines with
  | last s hs =>
      rw [endsWithLineFeed_of_not_mem hs, lines_of_not_mem hs]
      by_cases h : s = [] <;> simp [reread, h]
  | line l rest hl ih =>
      rw [lines_append_feed hl]
      cases rest with
      | nil =>
          rw [endsWithLineFeed_feed]
          rfl
      | cons c rest =>
          rw [endsWithLineFeed_append_feed l (List.cons_ne_nil _ _),
            reread_cons (lines_ne_nil (List.cons_ne_nil _ _)), ih]

end GodotLint.Text
