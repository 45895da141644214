import GodotLint.Proofs.Text.Lines
import GodotLint.Proofs.Text.Utf8

/-!
# Lines with their own ends

A text is cut after each line feed, and a line end is taken off every piece: a line feed, and the
carriage return before it if there is one. So each line is known with its own end (`EndedLine`), and
nothing of the text is lost (`flatMap_whole_endedLines`). The same is done with bytes as with
characters, so the alphabet and its two control characters are parameters.

A text whose line ends are all alike is made of its lines and this end (`eq_join_of_endsAlike`), and
lines that are laid for an end are read back with this end (`Laid.textLines_eq`).

The bytes of a file are cut into lines with their own ends as a text is. Reading the file and cutting
its text gives the lines of the bytes, each read by itself (`textLines_decodeFrom`).
-/

namespace GodotLint.Text

variable {α : Type}

/-- A line with its own end, which is empty where the text just stops. -/
structure EndedLine (α : Type) where
  line : List α
  ending : List α
  deriving DecidableEq, Repr

/-- The line and its end. -/
def EndedLine.whole (l : EndedLine α) : List α := l.line ++ l.ending

section cutting

variable [DecidableEq α]

/-- The pieces of a text, cut after every line feed. -/
def cutAfter (feed : α) (s : List α) : List (List α) := s.splitBy fun a _ => a != feed

/-- Takes the line end off a piece. -/
def EndedLine.ofPiece (ret feed : α) (piece : List α) : EndedLine α :=
  if [ret, feed] <:+ piece then ⟨piece.dropLast.dropLast, [ret, feed]⟩
  else if [feed] <:+ piece then ⟨piece.dropLast, [feed]⟩
  else ⟨piece, []⟩

/-- The lines of a text with their own ends. -/
def endedLines (ret feed : α) (s : List α) : List (EndedLine α) :=
  (cutAfter feed s).map (.ofPiece ret feed)

variable {ret feed : α} {l s : List α}

/-! ## Cutting -/

theorem isChain_of_not_mem (h : feed ∉ s) : s.IsChain fun a _ => (a != feed) = true := by
  refine List.Pairwise.isChain (List.pairwise_iff_getElem.mpr ?_)
  intro i _ hi _ _
  rw [bne_iff_ne]
  rintro rfl
  exact h (List.getElem_mem hi)

theorem cutAfter_of_not_mem (h : feed ∉ s) : cutAfter feed s = if s = [] then [] else [s] := by
  split_ifs with hs
  · rw [hs]
    rfl
  · exact List.splitBy_of_isChain hs (isChain_of_not_mem h)

theorem cutAfter_append_feed (h : feed ∉ l) (rest : List α) :
    cutAfter feed (l ++ feed :: rest) = (l ++ [feed]) :: cutAfter feed rest := by
  have hpiece : (l ++ [feed]).IsChain fun a _ => (a != feed) = true := by
    refine List.isChain_append.mpr ⟨isChain_of_not_mem h, List.isChain_singleton _, ?_⟩
    intro x hx _ _
    rw [bne_iff_ne]
    rintro rfl
    exact h (List.mem_of_getLast? hx)
  have hcut : cutAfter feed (l ++ [feed] ++ rest) = cutAfter feed (l ++ [feed]) ++
      cutAfter feed rest := List.splitBy_append (by simp)
  have hone : cutAfter feed (l ++ [feed]) = [l ++ [feed]] :=
    List.splitBy_of_isChain (List.append_ne_nil_of_right_ne_nil l (List.cons_ne_nil _ _)) hpiece
  rw [hone, List.append_assoc] at hcut
  exact hcut

/-! ## Taking the end off a piece -/

namespace EndedLine

theorem ofPiece_of_not_mem (h : feed ∉ s) : ofPiece ret feed s = ⟨s, []⟩ := by
  have hreturn : ¬ [ret, feed] <:+ s := fun hs => h (hs.subset (by simp))
  have hfeed : ¬ [feed] <:+ s := fun hs => h (hs.subset (by simp))
  rw [ofPiece, if_neg hreturn, if_neg hfeed]

/-- A piece that ends with a carriage return and a line feed. -/
theorem ofPiece_return_feed (l : List α) :
    ofPiece ret feed (l ++ [ret, feed]) = ⟨l, [ret, feed]⟩ := by
  rw [ofPiece, if_pos (List.suffix_append l _)]
  simp [List.dropLast_append_of_ne_nil]

/-- A piece that ends with a bare line feed. -/
theorem ofPiece_feed (h : l.getLast? ≠ some ret) : ofPiece ret feed (l ++ [feed]) = ⟨l, [feed]⟩ := by
  have hnot : ¬ [ret, feed] <:+ l ++ [feed] := by
    rintro ⟨u, hu⟩
    refine h ?_
    have : u ++ [ret] = l := by simpa using congrArg List.dropLast hu
    simp [← this]
  rw [ofPiece, if_neg hnot, if_pos (List.suffix_append l _), List.dropLast_concat]

/-- Nothing of a piece is lost. -/
theorem whole_ofPiece (ret feed : α) (piece : List α) : (ofPiece ret feed piece).whole = piece := by
  rw [ofPiece]
  split_ifs with hreturn hfeed
  · obtain ⟨l, rfl⟩ := hreturn
    simp [whole, List.dropLast_append_of_ne_nil]
  · obtain ⟨l, rfl⟩ := hfeed
    simp [whole]
  · exact List.append_nil piece

/-- There are only two line ends, and none. -/
theorem ending_ofPiece (ret feed : α) (piece : List α) : (ofPiece ret feed piece).ending = [] ∨
    (ofPiece ret feed piece).ending = [feed] ∨ (ofPiece ret feed piece).ending = [ret, feed] := by
  rw [ofPiece]
  split_ifs <;> simp

end EndedLine

/-! ## The lines -/

theorem endedLines_of_not_mem (h : feed ∉ s) :
    endedLines ret feed s = if s = [] then [] else [⟨s, []⟩] := by
  rw [endedLines, cutAfter_of_not_mem h]
  split_ifs
  · rfl
  · rw [List.map_singleton, EndedLine.ofPiece_of_not_mem h]

theorem endedLines_append_feed (h : feed ∉ l) (rest : List α) :
    endedLines ret feed (l ++ feed :: rest) =
      .ofPiece ret feed (l ++ [feed]) :: endedLines ret feed rest := by
  rw [endedLines, cutAfter_append_feed h, List.map_cons, endedLines]

/-- Nothing of a text is lost. -/
theorem flatMap_whole_endedLines (ret feed : α) (s : List α) :
    (endedLines ret feed s).flatMap EndedLine.whole = s := by
  rw [endedLines, List.flatMap_map]
  simp only [EndedLine.whole_ofPiece, List.flatMap_id', cutAfter, List.flatten_splitBy]

end cutting

/-! ## The lines of a text -/

/-- The lines of a text with their own ends. -/
def textLines (s : List Char) : List (EndedLine Char) := endedLines '\r' '\n' s

/-- Every line that is ended has the given end. -/
def EndsAlike (ending : List α) (ls : List (EndedLine α)) : Prop :=
  ∀ l ∈ ls, l.ending = [] ∨ l.ending = ending

instance [DecidableEq α] (ending : List α) (ls : List (EndedLine α)) :
    Decidable (EndsAlike ending ls) := inferInstanceAs (Decidable (∀ l ∈ ls, _))

variable {ending last s : List Char} {ended : Bool} {ls : List (List Char)}

/-- A piece of a text is the line that is read from it and one of the line ends. -/
theorem ofPiece_eq (l : List Char) :
    (∃ u, l = u ++ ['\r'] ∧ EndedLine.ofPiece '\r' '\n' (l ++ ['\n']) = ⟨u, ['\r', '\n']⟩ ∧
      dropCarriageReturn l = u) ∨
    (l.getLast? ≠ some '\r' ∧ EndedLine.ofPiece '\r' '\n' (l ++ ['\n']) = ⟨l, ['\n']⟩ ∧
      dropCarriageReturn l = l) := by
  by_cases h : l.getLast? = some '\r'
  · obtain ⟨u, rfl⟩ := List.getLast?_eq_some_iff.mp h
    refine .inl ⟨u, rfl, ?_, dropCarriageReturn_append u⟩
    rw [List.append_assoc]
    exact EndedLine.ofPiece_return_feed u
  · exact .inr ⟨h, EndedLine.ofPiece_feed h, dropCarriageReturn_of_ne h⟩

/-- The lines without their ends are the lines of the text. -/
theorem map_line_textLines (s : List Char) : (textLines s).map EndedLine.line = lines s := by
  induction s using induction_lines with
  | last s hs =>
      rw [textLines, endedLines_of_not_mem hs, lines_of_not_mem hs]
      split_ifs <;> rfl
  | line l rest hl ih =>
      rw [textLines, endedLines_append_feed hl, lines_append_feed hl, List.map_cons]
      rw [textLines] at ih
      rw [ih]
      rcases ofPiece_eq l with ⟨u, -, hpiece, hdrop⟩ | ⟨-, hpiece, hdrop⟩ <;>
        rw [hpiece, hdrop]

/-- A carriage return and a line feed stand at the first line feed of a text or behind it. -/
theorem return_feed_infix_iff {l rest : List Char} (hl : '\n' ∉ l) :
    ['\r', '\n'] <:+: l ++ '\n' :: rest ↔ l.getLast? = some '\r' ∨ ['\r', '\n'] <:+: rest := by
  constructor
  · rintro ⟨u, v, h⟩
    have h' : (u ++ ['\r']) ++ '\n' :: v = l ++ '\n' :: rest := by simpa using h
    rcases List.append_eq_append_iff.mp h' with ⟨w, rfl, hw⟩ | ⟨w, hl', hw⟩
    · cases w with
      | nil => exact .inl (by simp)
      | cons c w =>
          obtain ⟨rfl, -⟩ := List.cons.inj hw
          exact absurd (by simp) hl
    · cases w with
      | nil =>
          rw [List.append_nil] at hl'
          exact .inl (by rw [← hl', List.getLast?_concat])
      | cons c w =>
          obtain ⟨rfl, rfl⟩ := List.cons.inj hw
          refine .inr ?_
          rcases List.eq_nil_or_concat' w with rfl | ⟨w, d, rfl⟩
          · have := List.append_inj_right' hl' rfl
            simp at this
          · have hlast : u ++ ['\r'] = l ++ '\n' :: w ++ [d] := by simpa using hl'
            obtain ⟨-, hd⟩ := List.append_inj' hlast rfl
            obtain rfl := List.singleton_inj.mp hd
            exact ⟨w, v, by simp⟩
  · rintro (h | ⟨u, v, rfl⟩)
    · obtain ⟨u, rfl⟩ := List.getLast?_eq_some_iff.mp h
      exact ⟨u, rest, by simp⟩
    · exact ⟨l ++ '\n' :: u, v, by simp⟩

/-- A text has a carriage return before a line feed if one of its lines ends so. -/
theorem contains_return_iff : contains ['\r', '\n'] s = true ↔
    ∃ l ∈ textLines s, l.ending = ['\r', '\n'] := by
  rw [contains_iff]
  induction s using induction_lines with
  | last s hs =>
      have hnot : ¬ ['\r', '\n'] <:+: s := fun h => hs (h.subset (by simp))
      rw [textLines, endedLines_of_not_mem hs]
      split_ifs <;> simp [hnot]
  | line l rest hl ih =>
      rw [textLines, endedLines_append_feed hl, List.exists_mem_cons_iff, return_feed_infix_iff hl,
        ih, textLines]
      rcases ofPiece_eq l with ⟨u, hu, hpiece, -⟩ | ⟨hlast, hpiece, -⟩
      · rw [hpiece]
        simp [hu]
      · rw [hpiece]
        simp [hlast]

/-- A text whose line ends are all alike is made of its lines and this end. -/
theorem eq_join_of_endsAlike (h : EndsAlike ending (textLines s)) :
    s = join ending (lines s) ++ if endsWithLineFeed s then ending else [] := by
  induction s using induction_lines with
  | last s hs =>
      rw [endsWithLineFeed_of_not_mem hs, lines_of_not_mem hs]
      by_cases hnil : s = [] <;> simp [hnil, join]
  | line l rest hl ih =>
      rw [textLines, endedLines_append_feed hl, EndsAlike, List.forall_mem_cons] at h
      have hline : l ++ ['\n'] = dropCarriageReturn l ++ ending := by
        rcases ofPiece_eq l with ⟨u, hu, hpiece, hdrop⟩ | ⟨-, hpiece, hdrop⟩
        · rw [hpiece] at h
          rw [hdrop, ← h.1.resolve_left (List.cons_ne_nil _ _), hu]
          simp
        · rw [hpiece] at h
          rw [hdrop, ← h.1.resolve_left (List.cons_ne_nil _ _)]
      rw [lines_append_feed hl]
      cases rest with
      | nil =>
          rw [endsWithLineFeed_feed, hline]
          rfl
      | cons c rest =>
          have hrest := ih h.2
          have hne : lines (c :: rest) ≠ [] := lines_ne_nil (List.cons_ne_nil _ _)
          rw [endsWithLineFeed_append_feed l (List.cons_ne_nil _ _), join, List.append_assoc,
            ← hrest, ← hline]
          · simp
          · exact hne

/-- A text has a line feed at its end if its last line is ended. -/
theorem endsWithLineFeed_eq (s : List Char) :
    endsWithLineFeed s = ((textLines s).map EndedLine.ending).getLast?.any fun e => !e.isEmpty := by
  induction s using induction_lines with
  | last s hs =>
      rw [endsWithLineFeed_of_not_mem hs, textLines, endedLines_of_not_mem hs]
      split_ifs <;> rfl
  | line l rest hl ih =>
      rw [textLines, endedLines_append_feed hl, List.map_cons]
      cases rest with
      | nil =>
          have hpiece := ofPiece_eq l
          rw [endsWithLineFeed_feed]
          rcases hpiece with ⟨u, -, hpiece, -⟩ | ⟨-, hpiece, -⟩ <;> rw [hpiece] <;> rfl
      | cons c rest =>
          have hne : (endedLines '\r' '\n' (c :: rest)).map EndedLine.ending ≠ [] := by
            have := lines_ne_nil (List.cons_ne_nil c rest)
            rw [← map_line_textLines, textLines] at this
            simpa using this
          rw [endsWithLineFeed_append_feed l (List.cons_ne_nil _ _), ih,
            List.getLast?_cons_of_ne_nil hne, textLines]

/-! ## Lines that are laid for an end -/

/-- Lines with one end, the last one with an end of its own. -/
def withEnds (ending last : List Char) : List (List Char) → List (EndedLine Char)
  | [] => []
  | [l] => [⟨l, last⟩]
  | l :: ls => ⟨l, ending⟩ :: withEnds ending last ls

theorem withEnds_cons {l : List Char} (hls : ls ≠ []) :
    withEnds ending last (l :: ls) = ⟨l, ending⟩ :: withEnds ending last ls := by
  obtain ⟨m, ms, rfl⟩ := List.exists_cons_of_ne_nil hls
  rfl

@[simp] theorem length_withEnds (ending last : List Char) (ls : List (List Char)) :
    (withEnds ending last ls).length = ls.length := by
  induction ls with
  | nil => rfl
  | cons l ls ih =>
      by_cases hls : ls = []
      · rw [hls]
        rfl
      · rw [withEnds_cons hls, List.length_cons, ih, List.length_cons]

/-- The ends do not depend on what the lines are. -/
theorem map_ending_withEnds_map (f : List Char → List Char) :
    (withEnds ending last (ls.map f)).map EndedLine.ending =
      (withEnds ending last ls).map EndedLine.ending := by
  induction ls with
  | nil => rfl
  | cons l ls ih =>
      by_cases hls : ls = []
      · rw [hls]
        rfl
      · rw [List.map_cons, withEnds_cons (by simpa using hls), withEnds_cons hls, List.map_cons,
          List.map_cons, ih]

/-- A line that is laid before a line end is read back with it. -/
theorem textLines_append_end {l : List Char} (hending : IsLineEnd ending) (hfeed : '\n' ∉ l)
    (hreturn : ending = ['\n'] → l.getLast? ≠ some '\r') (rest : List Char) :
    textLines (l ++ ending ++ rest) = ⟨l, ending⟩ :: textLines rest := by
  rcases hending with rfl | rfl
  · rw [List.append_assoc, List.singleton_append, textLines, endedLines_append_feed hfeed,
      EndedLine.ofPiece_feed (hreturn rfl), textLines]
  · have hmem : '\n' ∉ l ++ ['\r'] := by simp [hfeed]
    have hsplit : l ++ ['\r', '\n'] ++ rest = l ++ ['\r'] ++ '\n' :: rest := by simp
    have hpiece : l ++ ['\r'] ++ ['\n'] = l ++ ['\r', '\n'] := by simp
    rw [hsplit, textLines, endedLines_append_feed hmem, hpiece, EndedLine.ofPiece_return_feed,
      textLines]

/-- **Lines are read back with their ends** from the text that is made of them. -/
theorem Laid.textLines_eq (h : Laid ending ended ls) (hls : reread ended ls = ls) :
    textLines (join ending ls ++ if ended then ending else []) =
      withEnds ending (if ended then ending else []) ls := by
  rw [reread_eq_self_iff] at hls
  induction ls with
  | nil =>
      cases ended
      · rfl
      · simp at hls
  | cons l ls ih =>
      have hfeed : '\n' ∉ l := h.no_feed l (List.mem_cons_self ..)
      by_cases hnil : ls = []
      · subst hnil
        cases ended
        · have hl : l ≠ [] := by simpa using hls
          simp only [join, Bool.false_eq_true, if_false, List.append_nil, textLines, withEnds]
          rw [endedLines_of_not_mem hfeed, if_neg hl]
        · have hend := textLines_append_end h.isLineEnd hfeed (h.head_no_return (.inr rfl)) []
          rw [List.append_nil] at hend
          exact hend
      · have hrest : if ended then ls ≠ [] else ls.getLast? ≠ some [] := by
          rw [List.getLast?_cons_of_ne_nil hnil] at hls
          cases ended
          · exact hls
          · exact hnil
        rw [join_cons hnil, List.append_assoc (l ++ ending),
          textLines_append_end h.isLineEnd hfeed (h.head_no_return (.inl hnil)),
          ih (h.of_cons hnil) hrest, withEnds_cons hnil]

/-! ## Lines put together with their ends -/

/-- Lines put together, each with its own end, but the last one with the given end. -/
def EndedLine.join (last : List α) : List (EndedLine α) → List α
  | [] => last
  | [l] => l.line ++ last
  | l :: ls => l.whole ++ join last ls

/-- The end of the last line. -/
def lastEnding (ls : List (EndedLine α)) : List α := (ls.getLast?.map EndedLine.ending).getD []

theorem EndedLine.join_cons {last : List α} {l : EndedLine α} {ls : List (EndedLine α)}
    (h : ls ≠ []) : join last (l :: ls) = l.whole ++ join last ls := by
  obtain ⟨m, ms, rfl⟩ := List.exists_cons_of_ne_nil h
  rfl

/-- The last line of lines with ends. -/
theorem lastEnding_withEnds {ending last : List Char} {ls : List (List Char)} (h : ls ≠ []) :
    lastEnding (withEnds ending last ls) = last := by
  induction ls with
  | nil => exact absurd rfl h
  | cons l ls ih =>
      by_cases hls : ls = []
      · subst hls
        rfl
      · have hne : withEnds ending last ls ≠ [] := by
          obtain ⟨m, ms, rfl⟩ := List.exists_cons_of_ne_nil hls
          cases ms <;> exact List.cons_ne_nil _ _
        rw [withEnds_cons hls, lastEnding, List.getLast?_cons_of_ne_nil hne]
        exact ih hls

/-- A line in the place of another, with its end, or none. -/
def EndedLine.revised (l : EndedLine α) (new : Option (List α)) : Option (EndedLine α) :=
  new.map fun line => ⟨line, l.ending⟩

/-- Lines in the places of others, as far as there are any. -/
def revisions (ls : List (EndedLine α)) (news : List (Option (List α))) : List (EndedLine α) :=
  (ls.zip news).filterMap fun x => x.1.revised x.2

theorem map_line_revisions {ls : List (EndedLine α)} {news : List (Option (List α))}
    (h : news.length = ls.length) :
    (revisions ls news).map EndedLine.line = news.filterMap fun line => line := by
  have hline : ∀ x : EndedLine α × Option (List α), (x.1.revised x.2).map EndedLine.line = x.2 := by
    rintro ⟨l, new⟩
    cases new <;> rfl
  have hnews : news.filterMap (fun line => line) =
      ((ls.zip news).map Prod.snd).filterMap fun line => line := by
    rw [List.map_snd_zip h.le]
  rw [hnews, revisions, List.map_filterMap, List.filterMap_map]
  simp only [hline]
  rfl

/-- Lines in the places of others are put together with the ends of these. -/
theorem join_revisions_withEnds {ending last : List Char} {ls : List (List Char)}
    {news : List (Option (List Char))} (h : news.length = ls.length) :
    EndedLine.join last (revisions (withEnds ending last ls) news) =
      join ending (news.filterMap fun line => line) ++ last := by
  induction ls generalizing news with
  | nil =>
      obtain rfl : news = [] := List.length_eq_zero_iff.mp h
      rfl
  | cons l ls ih =>
      obtain ⟨new, news, rfl⟩ := List.exists_cons_of_length_eq_add_one h
      have hlen : news.length = ls.length := by simpa using h
      by_cases hls : ls = []
      · subst hls
        obtain rfl : news = [] := List.length_eq_zero_iff.mp hlen
        cases new <;> rfl
      · rw [withEnds_cons hls]
        cases new with
        | none => exact ih hlen
        | some n =>
            have hkept : (revisions (withEnds ending last ls) news).map EndedLine.line =
                news.filterMap fun line => line :=
              map_line_revisions (by rw [length_withEnds, hlen])
            change EndedLine.join last (⟨n, ending⟩ :: revisions (withEnds ending last ls) news) =
              join ending (n :: news.filterMap fun line => line) ++ last
            by_cases hnone : news.filterMap (fun line => line) = []
            · rw [hnone, List.map_eq_nil_iff] at hkept
              rw [hkept, hnone]
              rfl
            · have hne : revisions (withEnds ending last ls) news ≠ [] := by
                rintro hnil
                rw [hnil] at hkept
                exact hnone hkept.symm
              rw [EndedLine.join_cons hne, ih hlen, join_cons hnone, EndedLine.whole]
              simp

/-! ## The lines of a file -/

section bytes

/-- The lines of a file with their own ends. -/
def byteLines (bytes : List UInt8) : List (EndedLine UInt8) := endedLines 13 10 bytes

/-- A line of a file as it is read. -/
def EndedLine.decoded (l : EndedLine UInt8) : EndedLine Char :=
  ⟨decodeFrom none l.line, decodeFrom none l.ending⟩

/-- A line of a text as it is written. -/
def EndedLine.encoded (l : EndedLine Char) : EndedLine UInt8 := ⟨encode l.line, encode l.ending⟩

variable {l : List UInt8}

/-- A line feed is read by itself. -/
theorem decodeFrom_append_feed (l rest : List UInt8) :
    decodeFrom none (l ++ 10 :: rest) = decodeFrom none l ++ '\n' :: decodeFrom none rest :=
  decodeFrom_append_ascii isReached_none (by decide) l rest

/-- No line feed is read where there is none. -/
theorem feed_not_mem_decodeFrom (h : 10 ∉ l) : '\n' ∉ decodeFrom none l := by
  intro hmem
  obtain ⟨b, hb, hvalue⟩ := exists_mem_of_mem_decodeFrom isReached_none hmem (by decide) (by decide)
  obtain rfl : b = 10 := UInt8.toNat_inj.mp hvalue
  exact h hb

/-- The line end of a piece is read by itself. -/
theorem ofPiece_decodeFrom (l : List UInt8) :
    EndedLine.ofPiece '\r' '\n' (decodeFrom none l ++ ['\n']) =
      (EndedLine.ofPiece 13 10 (l ++ [10])).decoded := by
  by_cases h : l.getLast? = some 13
  · obtain ⟨u, rfl⟩ := List.getLast?_eq_some_iff.mp h
    have hread : decodeFrom none (u ++ [13]) = decodeFrom none u ++ ['\r'] :=
      decodeFrom_append_ascii isReached_none (by decide) u []
    have hbytes : EndedLine.ofPiece 13 10 (u ++ [13, 10]) = ⟨u, [13, 10]⟩ :=
      EndedLine.ofPiece_return_feed u
    rw [hread, List.append_assoc, List.append_assoc]
    refine (EndedLine.ofPiece_return_feed _).trans ?_
    exact (congrArg EndedLine.decoded hbytes).symm
  · have hlast : (decodeFrom none l).getLast? ≠ some '\r' := by
      intro hlast
      obtain ⟨b, hb, hvalue⟩ := exists_getLast?_eq isReached_none hlast (by decide) (by decide)
      obtain rfl : b = 13 := UInt8.toNat_inj.mp hvalue
      exact h hb
    rw [EndedLine.ofPiece_feed h, EndedLine.ofPiece_feed hlast]
    rfl

/-- **The lines of a file are read each by itself.** -/
theorem textLines_decodeFrom (bytes : List UInt8) :
    textLines (decodeFrom none bytes) = (byteLines bytes).map EndedLine.decoded := by
  induction bytes using induction_cuts (10 : UInt8) with
  | last s hs =>
      rw [textLines, byteLines, endedLines_of_not_mem (feed_not_mem_decodeFrom hs),
        endedLines_of_not_mem hs]
      simp only [decodeFrom_eq_nil_iff]
      split_ifs <;> rfl
  | piece l rest hl ih =>
      rw [textLines, byteLines, decodeFrom_append_feed,
        endedLines_append_feed (feed_not_mem_decodeFrom hl), endedLines_append_feed hl,
        List.map_cons, ofPiece_decodeFrom]
      exact congrArg _ ih

/-- A line end is written as it was read. -/
theorem encode_ending {bytes : List UInt8} {l : EndedLine UInt8} (h : l ∈ byteLines bytes) :
    encode (decodeFrom none l.ending) = l.ending := by
  obtain ⟨piece, -, rfl⟩ := List.mem_map.mp h
  rcases EndedLine.ending_ofPiece 13 10 piece with heq | heq | heq <;> rw [heq] <;> decide

/-- Bytes of a text in parts. -/
theorem encode_append (s t : List Char) : encode (s ++ t) = encode s ++ encode t :=
  List.flatMap_append

/-- Lines are written each by itself. -/
theorem encode_join (last : List Char) (ls : List (EndedLine Char)) :
    encode (EndedLine.join last ls) =
      EndedLine.join (encode last) (ls.map EndedLine.encoded) := by
  induction ls with
  | nil => rfl
  | cons l ls ih =>
      by_cases hls : ls = []
      · subst hls
        exact encode_append _ _
      · rw [EndedLine.join_cons hls, List.map_cons, EndedLine.join_cons (by simpa using hls),
          encode_append, ih]
        exact congrArg (· ++ _) (encode_append _ _)

/-- The end of the last line is written as it was. -/
theorem encode_lastEnding (bytes : List UInt8) :
    encode (lastEnding (textLines (decodeFrom none bytes))) = lastEnding (byteLines bytes) := by
  rw [textLines_decodeFrom, lastEnding, lastEnding, List.getLast?_map]
  cases h : (byteLines bytes).getLast? with
  | none => rfl
  | some l => exact encode_ending (List.mem_of_getLast? h)

end bytes

end GodotLint.Text
