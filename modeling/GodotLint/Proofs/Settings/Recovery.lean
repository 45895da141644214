import GodotLint.Proofs.Settings.Views
import GodotLint.Proofs.Text.LineEnds
import GodotLint.Proofs.Text.Bytes

/-!
# Going on behind a faulty line

A line that is reported as an unterminated header or as no entry is a stretch of its own, and so is the
blank line that takes its place: neither starts a section nor opens a value, so the stretches around it stay
what they are (`Cut.replace`). Nothing that is read later looks at the faults (`foldl_take_withFaults`).
Replacing the line by a blank one therefore takes back its fault and changes nothing else
(`parse_replaceLine`).
-/

namespace GodotLint

open Text

namespace Text

/-! ## Replacing a line -/

/-- The text with the line of a number, counted from one, replaced; its end stays. -/
def replaceLine (number : Nat) (new text : List Char) : List Char :=
  ((textLines text).modify (number - 1) fun l => { l with line := new }).flatMap EndedLine.whole

variable {new text raw : List Char} {A B : List (List Char)}

/-- A blank line without line feeds is blank before any line end. -/
theorem isAllBlank_dropCarriageReturn (h : isAllBlank new = true) :
    isAllBlank (dropCarriageReturn new) = true := by
  unfold isAllBlank at h ⊢
  rw [List.all_eq_true] at h ⊢
  intro c hc
  apply h
  by_contra hnot
  exact not_mem_dropCarriageReturn hnot hc

/-- Without line feeds a text has one line, or none if it is empty. -/
theorem of_lines_eq_append {s : List Char} (hs : '\n' ∉ s) (h : lines s = A ++ raw :: B) :
    s ≠ [] ∧ A = [] ∧ B = [] := by
  rw [lines_of_not_mem hs] at h
  split_ifs at h with hnil
  · simp at h
  · have hlength := congrArg List.length h
    simp only [List.length_cons, List.length_append, List.length_nil] at hlength
    refine ⟨hnil, ?_, ?_⟩ <;> apply List.eq_nil_of_length_eq_zero <;> omega

/-- A blank line in the place of the first one is read as a blank line. -/
theorem exists_lines_whole_append (hnew : '\n' ∉ new) (hblank : isAllBlank new = true)
    (l rest : List Char) : ∃ b, isAllBlank b = true ∧
      lines ({ EndedLine.ofPiece '\r' '\n' (l ++ ['\n']) with line := new }.whole ++ rest) =
        b :: lines rest := by
  -- the line end may have a carriage return, which then does not belong to the new line
  rcases ofPiece_eq l with ⟨u, -, hpiece, -⟩ | ⟨-, hpiece, -⟩
  · have hfeed : '\n' ∉ new ++ ['\r'] := by simp [hnew]
    have hlines := lines_append_feed hfeed rest
    rw [dropCarriageReturn_append] at hlines
    refine ⟨new, hblank, ?_⟩
    rw [hpiece]
    simpa [EndedLine.whole] using hlines
  · refine ⟨dropCarriageReturn new, isAllBlank_dropCarriageReturn hblank, ?_⟩
    rw [hpiece]
    simpa [EndedLine.whole] using lines_append_feed hnew rest

/-- Where a line was there is a blank one, or none if the text ended with it. -/
theorem lines_replaceLine (hnew : '\n' ∉ new) (hblank : isAllBlank new = true)
    (h : lines text = A ++ raw :: B) :
    ∃ bs, lines (replaceLine (A.length + 1) new text) = A ++ bs ++ B ∧
      ((∃ b, bs = [b] ∧ isAllBlank b = true) ∨ bs = [] ∧ B = []) := by
  unfold replaceLine
  rw [Nat.add_sub_cancel]
  induction text using induction_lines generalizing A with
  | last s hs =>
      obtain ⟨hne, rfl, rfl⟩ := of_lines_eq_append hs h
      have htext : ((textLines s).modify 0 fun l => { l with line := new }).flatMap EndedLine.whole =
          new := by
        rw [textLines, endedLines_of_not_mem hs, if_neg hne]
        simp [EndedLine.whole]
      rw [List.length_nil, htext, lines_of_not_mem hnew]
      split_ifs with hempty
      · exact ⟨[], rfl, .inr ⟨rfl, rfl⟩⟩
      · exact ⟨[new], rfl, .inl ⟨new, rfl, hblank⟩⟩
  | line l rest hl ih =>
      rw [lines_append_feed hl] at h
      rw [textLines, endedLines_append_feed hl]
      cases A with
      | nil =>
          obtain ⟨rfl, rfl⟩ := List.cons.inj h
          obtain ⟨b, hb, hlines⟩ := exists_lines_whole_append hnew hblank l rest
          refine ⟨[b], ?_, .inl ⟨b, rfl, hb⟩⟩
          rw [List.length_nil, List.modify_zero_cons, List.flatMap_cons, flatMap_whole_endedLines]
          exact hlines
      | cons a A =>
          obtain ⟨rfl, hrest⟩ := List.cons.inj h
          obtain ⟨bs, hbs, hblanks⟩ := ih hrest
          refine ⟨bs, ?_, hblanks⟩
          rw [List.length_cons, List.modify_succ_cons, List.flatMap_cons, EndedLine.whole_ofPiece,
            List.append_assoc, List.singleton_append, lines_append_feed hl]
          rw [textLines] at hbs
          rw [hbs]
          rfl

end Text

namespace Settings

variable {x : Stretch} {pre post ss : List Stretch} {n : Nat} {ls rest : List (List Char)} {r : Reading}
  {fs : List (Nat × SettingsFault)} {fault : SettingsFault} {text : List Char}

/-! ## Stretches around a line -/

/-- A stretch with lines behind it is whole whatever these lines are. -/
theorem Stretch.IsWhole.of_ne_nil (h : x.IsWhole rest) (hrest : rest ≠ [])
    (rest' : List (List Char)) : x.IsWhole rest' where
  means := h.means
  continues key value hentry := (h.continues key value hentry).of_ne_nil hrest rest'
  single := h.single

/-- A blank line is a stretch. -/
theorem isWhole_blank {b : List Char} (hb : isAllBlank b = true) (n : Nat) (rest : List (List Char)) :
    Stretch.IsWhole ⟨n, b, .nothing, []⟩ rest := by
  have hstart : trimStart b = [] := List.dropWhile_eq_nil_iff.mpr (List.all_eq_true.mp hb)
  refine ⟨.blank ?_, nofun, fun _ => rfl⟩
  rw [trim, hstart]
  rfl

/-- The lines in front of a stretch fall into the same stretches whatever comes instead of it. -/
theorem Cut.replace (h : Cut n ls (pre ++ x :: post)) : ∃ A rest, ls = A ++ (x.lines ++ rest) ∧
    n + A.length = x.line ∧ x.IsWhole rest ∧ Cut (x.line + x.lines.length) rest post ∧
    ∀ ls' ss', Cut x.line ls' ss' → Cut n (A ++ ls') (pre ++ ss') := by
  induction pre generalizing n ls with
  | nil =>
      cases h with
      | cons whole later => exact ⟨[], _, rfl, rfl, whole, later, fun _ _ h => h⟩
  | cons s pre ih =>
      cases h with
      | cons whole later =>
          obtain ⟨A, rest, rfl, hline, hwhole, hpost, hpre⟩ := ih later
          refine ⟨s.lines ++ A, rest, (List.append_assoc _ _ _).symm, ?_, hwhole, hpost, ?_⟩
          · rw [List.length_append, ← Nat.add_assoc]
            exact hline
          · intro ls' ss' hafter
            have hnonempty : A ++ (x.lines ++ rest) ≠ [] := by simp [Stretch.lines]
            rw [List.append_assoc]
            exact .cons (whole.of_ne_nil hnonempty _) (hpre ls' ss' hafter)

/-! ## Faults are not read -/

/-- The reader with other faults. -/
def Reading.withFaults (r : Reading) (fs : List (Nat × SettingsFault)) : Reading :=
  { r with settings.faults := fs }

/-- A stretch adds its fault, and what else it adds does not depend on the faults before. -/
theorem take_withFaults (r : Reading) (fs : List (Nat × SettingsFault)) (s : Stretch) :
    (r.withFaults fs).take s = (r.take s).withFaults (fs ++ s.fault?.toList) := by
  unfold Reading.take Stretch.fault?
  cases s.meaning with
  | nothing | header =>
      simp only [Option.toList_none, List.append_nil]
      rfl
  | fault f => rfl
  | entry key value =>
      have hsection : (r.withFaults fs).sectionName = r.sectionName := rfl
      unfold Reading.store
      simp only [hsection]
      split_ifs <;> simp [Reading.withFaults]

/-- So it is with many stretches, by induction over them. -/
theorem foldl_take_withFaults (r : Reading) (fs : List (Nat × SettingsFault)) (ss : List Stretch) :
    ss.foldl Reading.take (r.withFaults fs) =
      (ss.foldl Reading.take r).withFaults (fs ++ ss.filterMap Stretch.fault?) := by
  induction ss generalizing r fs with
  | nil => simp
  | cons s rest ih =>
      have hfaults : (s :: rest).filterMap Stretch.fault? =
          s.fault?.toList ++ rest.filterMap Stretch.fault? := by
        rw [List.filterMap_cons]
        cases s.fault? <;> rfl
      rw [List.foldl_cons, take_withFaults, ih, hfaults, ← List.append_assoc]
      rfl

/-- A stretch that is reported for another fault than a missing key is the faulty line. -/
theorem meaning_of_fault? (h : x.fault? = some (n, fault)) (hkey : fault ≠ .emptyKey) :
    x.meaning = .fault fault ∧ x.line = n := by
  unfold Stretch.fault? at h
  split at h
  · rename_i f hmeaning
    obtain ⟨rfl, rfl⟩ := Prod.mk.inj (Option.some.inj h)
    exact ⟨hmeaning, rfl⟩
  · split_ifs at h
    exact absurd (Prod.mk.inj (Option.some.inj h)).2.symm hkey
  · cases h

/-- A blank line between stretches, or none at the end of the file, adds nothing. -/
theorem parse_of_blank {bs A : List (List Char)} (hlines : lines text = A ++ (bs ++ rest))
    (hcase : (∃ b, bs = [b] ∧ isAllBlank b = true) ∨ bs = [] ∧ rest = [])
    (hpre : ∀ ls ss, Cut n ls ss → Cut 1 (A ++ ls) (pre ++ ss)) (hpost : Cut (n + 1) rest post) :
    parse text = (post.foldl Reading.take (pre.foldl Reading.take {})).settings := by
  obtain ⟨b, rfl, hb⟩ | ⟨rfl, rfl⟩ := hcase
  · have hcut : Cut 1 (lines text) (pre ++ ⟨n, b, .nothing, []⟩ :: post) := by
      rw [hlines]
      exact hpre _ _ (.cons (isWhole_blank hb _ _) hpost)
    rw [parse_eq hcut, List.foldl_append, List.foldl_cons]
    rfl
  · obtain rfl : post = [] := by
      have hnone := hpost.lines_eq
      cases post with
      | nil => rfl
      | cons s _ => simp [Stretch.lines] at hnone
    have hcut : Cut 1 (lines text) (pre ++ []) := by
      rw [hlines]
      exact hpre _ _ (.nil _)
    rw [parse_eq hcut, List.append_nil]
    rfl

/-- **A faulty line costs its own fault only**: with a blank line in its place everything else that is read
from the file stays, and all lines keep their numbers. -/
theorem parse_replaceLine {text new : List Char} (hnew : '\n' ∉ new) (hblank : isAllBlank new = true)
    (hfault : (n, fault) ∈ (parse text).faults) (hkey : fault ≠ .emptyKey) :
    ∃ e₁ e₂, (parse text).faults = e₁ ++ (n, fault) :: e₂ ∧
      parse (replaceLine n new text) = { parse text with faults := e₁ ++ e₂ } := by
  obtain ⟨ss, hcut⟩ := exists_cut 1 (lines text)
  rw [(told_parse hcut).faults] at hfault
  obtain ⟨x, hx, hxfault⟩ : ∃ x ∈ ss, x.fault? = some (n, fault) := by simpa using hfault
  obtain ⟨hmeaning, hxline⟩ := meaning_of_fault? hxfault hkey
  obtain ⟨pre, post, rfl⟩ := List.append_of_mem hx
  obtain ⟨A, rest, hlines, hn, hwhole, hpost, hpre⟩ := hcut.replace
  have hmore : x.more = [] := hwhole.single (by simp [hmeaning])
  have hxlines : x.lines = [x.raw] := by rw [Stretch.lines, hmore]
  rw [hxlines] at hlines hpost
  obtain ⟨bs, hbs, hcase⟩ := lines_replaceLine hnew hblank hlines
  have hnumber : A.length + 1 = n := by omega
  rw [hnumber, List.append_assoc] at hbs
  -- the reader stands between the stretches before the line and those behind it
  set r := pre.foldl Reading.take {} with hr
  have hbefore : parse text =
      (post.foldl Reading.take (r.withFaults (r.settings.faults ++ [(n, fault)]))).settings := by
    rw [parse_eq hcut, List.foldl_append, List.foldl_cons, ← hr]
    congr 2
    unfold Reading.take
    rw [hmeaning, hxline]
    rfl
  have hafter : parse (replaceLine n new text) =
      (post.foldl Reading.take (r.withFaults r.settings.faults)).settings :=
    parse_of_blank hbs hcase hpre hpost
  refine ⟨r.settings.faults, post.filterMap Stretch.fault?, ?_, ?_⟩
  · rw [hbefore, foldl_take_withFaults]
    simp [Reading.withFaults]
  · rw [hbefore, hafter, foldl_take_withFaults, foldl_take_withFaults]
    rfl

/-- The line without an equals sign stands below a value that goes on over two lines. -/
theorem parse_replaceLine_stray : ∃ e₁ e₂, (parse "[autoload]\na=(\n)\nstray\nb=1".toList).faults =
      e₁ ++ (4, .missingEquals "stray".toList) :: e₂ ∧
    parse (replaceLine 4 [' '] "[autoload]\na=(\n)\nstray\nb=1".toList) =
      { parse "[autoload]\na=(\n)\nstray\nb=1".toList with faults := e₁ ++ e₂ } :=
  parse_replaceLine (by decide) (by decide) (by decide +kernel) (by decide)

end Settings

end GodotLint
