import GodotLint.Proofs.Script.Accesses
import GodotLint.Proofs.Script.Indentation

/-!
# Tabs and the facts of a script

A tab of indentation counts for four spaces. Replacing tabs by spaces in the indentation of some lines
(`untabLines`) keeps the depth of every line, so it leaves the facts of the script as they are, but
for the places of dictionary accesses: these are byte offsets, and move by as much as their line has
become longer (`Facts.ofLines_untabLines`).
-/

namespace GodotLint

open Text Pattern

/-- The lines of a script, with the tabs of indentation replaced on the lines of the chosen numbers. -/
def untabLines (chosen : Nat → Bool) (lines : List (List Char)) : List (List Char) :=
  (lines.zipIdx 1).map fun (line, number) => if chosen number then Line.untab line else line

/-- An access that stands further to the right. -/
def Access.moveBy (added : Nat) (a : Access) : Access :=
  { a with column := a.column + added, stop := a.stop + added }

/-- By how much the line of a number is longer than before. -/
def addedLength (before after : List (List Char)) (number : Nat) : Nat :=
  width (after.getD (number - 1) []) - width (before.getD (number - 1) [])

namespace Script

variable {a a' : List Char} {added : Nat}

/-! ## The accesses on one line -/

theorem isGuarded_eq (h : SameIndent a a') (code key : List Char) :
    isGuarded (a ++ code) key = isGuarded (a' ++ code) key := by
  have hedge : condition.AsksForEdge [.blank, .only '('] := by decide
  have hcondition : condition.occursIn (a ++ Line.mask code) =
      condition.occursIn (a' ++ Line.mask code) := isSome_of_rel (h.find?_edge hedge _)
  unfold isGuarded
  rw [h.left.mask_append, h.right.mask_append, hcondition, h.contains_eq code (by decide),
    h.contains_eq code (by simp), h.contains_eq code (by simp)]

/-- The bracket accesses behind a longer indentation. -/
theorem bracketAccesses_behind (h : SameIndent a a') (hadded : width a' = width a + added)
    (code : List Char) (line : Nat) : bracketAccesses (a' ++ code) line =
      (bracketAccesses (a ++ code) line).map (Access.moveBy added) := by
  unfold bracketAccesses
  rw [List.map_filterMap]
  refine (filterMap_of_forall₂ (h.findAll (by decide) code) fun m m' hm => ?_).symm
  obtain ⟨w, rest, hafter, hafter'⟩ := hm.after
  rw [h.isInsideLiteral_start hm]
  split_ifs
  · rfl
  · simp only [Option.map_some, Access.moveBy, hm.group 1 rfl, hm.group 2 rfl, hm.group 3 rfl,
      isGuarded_eq h, hm.stop_eq hadded, hm.start_eq hadded, hafter, hafter', Cursor.between_rest]

theorem callAccesses_behind (h : SameIndent a a') (hadded : width a' = width a + added)
    (code : List Char) (line : Nat) : callAccesses (a' ++ code) line =
      (callAccesses (a ++ code) line).map (Access.moveBy added) := by
  unfold callAccesses
  rw [List.map_filterMap]
  refine (filterMap_of_forall₂ (h.findAll (by decide) code) fun m m' hm => ?_).symm
  rw [h.isInsideLiteral_start hm, hm.group 1 rfl, hm.group 2 rfl, hm.group 3 rfl, hm.group 4 rfl,
    hm.stop_eq hadded, hm.start_eq hadded]
  cases Line.isInsideLiteral (a' ++ code) (m.start + added) <;> rfl

/-- The accesses on a line move by as much as the line has become longer. -/
theorem accessesOfLine_untab (raw : List Char) (line : Nat) : accessesOfLine (Line.untab raw) line =
    (accessesOfLine raw line).map (Access.moveBy (width (Line.untab raw) - width raw)) := by
  have hlonger := Line.width_le_width_untab raw
  obtain ⟨a, a', s, h, hraw, huntab⟩ := (Line.reindented_untab raw).exists_append
  rw [huntab, hraw] at hlonger
  rw [huntab, hraw]
  have hadded : width a' = width a + (width (a' ++ s) - width (a ++ s)) := by
    rw [width_append, width_append] at hlonger ⊢
    omega
  rw [accessesOfLine_eq, accessesOfLine_eq, h.left.code_append, h.right.code_append,
    bracketAccesses_behind h hadded, callAccesses_behind h hadded, List.map_append]

/-! ## The accesses of a script -/

/-- The lines and their numbers after tabs have been replaced. -/
theorem zipIdx_untabLines (chosen : Nat → Bool) (lines : List (List Char)) :
    (untabLines chosen lines).zipIdx 1 = (lines.zipIdx 1).map fun (line, number) =>
      (if chosen number then Line.untab line else line, number) := by
  unfold untabLines
  generalize 1 = n
  induction lines generalizing n with
  | nil => rfl
  | cons line lines ih =>
      rw [List.zipIdx_cons, List.map_cons, List.zipIdx_cons, List.map_cons, ih]

theorem addedLength_of_mem (chosen : Nat → Bool) {lines : List (List Char)} {raw : List Char}
    {number : Nat} (h : (raw, number) ∈ lines.zipIdx 1) :
    addedLength lines (untabLines chosen lines) number =
      width (if chosen number then Line.untab raw else raw) - width raw := by
  have hafter : ((if chosen number then Line.untab raw else raw), number) ∈
      (untabLines chosen lines).zipIdx 1 := by
    rw [zipIdx_untabLines]
    exact List.mem_map_of_mem h
  have hline : ∀ {ls : List (List Char)} {l : List Char}, (l, number) ∈ ls.zipIdx 1 →
      ls.getD (number - 1) [] = l := by
    intro ls l hl
    obtain ⟨-, hget⟩ := List.mem_zipIdx_iff_le_and_getElem?_sub.mp hl
    rw [List.getD_eq_getElem?_getD, hget, Option.getD_some]
  rw [addedLength, hline hafter, hline h]

/-- **Accesses move with their lines** when tabs are replaced, and stay in order. -/
theorem accesses_untabLines (chosen : Nat → Bool) (lines : List (List Char)) :
    accesses (untabLines chosen lines) = (accesses lines).map fun x =>
      x.moveBy (addedLength lines (untabLines chosen lines) x.line) := by
  have hle : (fun x y : Access => Access.le
      (x.moveBy (addedLength lines (untabLines chosen lines) x.line))
      (y.moveBy (addedLength lines (untabLines chosen lines) y.line))) = Access.le := by
    funext x y
    rw [Bool.eq_iff_iff, Access.le_iff, Access.le_iff]
    -- only accesses on one line are compared by their columns, and these move by the same length
    refine or_congr_right (and_congr_right fun hline => ?_)
    have hline : x.line = y.line := hline
    unfold Access.moveBy
    rw [hline]
    exact Nat.add_le_add_iff_right
  unfold accesses
  rw [zipIdx_untabLines, List.flatMap_map, ← hle, ← stableSort_map, hle, List.map_flatMap]
  congr 1
  refine List.flatMap_congr fun ⟨raw, number⟩ hraw => ?_
  have hadded := addedLength_of_mem chosen hraw
  have hmap : (accessesOfLine raw number).map (fun x =>
        x.moveBy (addedLength lines (untabLines chosen lines) x.line)) =
      (accessesOfLine raw number).map
        (Access.moveBy (addedLength lines (untabLines chosen lines) number)) :=
    List.map_congr_left fun x hx => by rw [line_of_mem_accessesOfLine hx]
  show accessesOfLine (if chosen number then Line.untab raw else raw) number = _
  rw [hmap, hadded]
  split_ifs
  · exact accessesOfLine_untab raw number
  · rw [Nat.sub_self]
    exact (List.map_id _).symm

end Script

/-! ## Facts -/

theorem reindented_untabLines (chosen : Nat → Bool) (lines : List (List Char)) :
    List.Forall₂ Line.Reindented lines (untabLines chosen lines) := by
  unfold untabLines
  generalize 1 = n
  induction lines generalizing n with
  | nil => exact .nil
  | cons line lines ih =>
      refine .cons ?_ (ih (n + 1))
      show Line.Reindented line (if chosen n then Line.untab line else line)
      split_ifs
      · exact Line.reindented_untab line
      · exact .refl line

/-- **A tab of indentation counts for four spaces**: replacing tabs by spaces in the indentation of any
of the lines leaves every fact as it is, but that the accesses on these lines move by the length that was
added. -/
theorem Facts.ofLines_untabLines (chosen : Nat → Bool) (lines : List (List Char)) :
    Facts.ofLines (untabLines chosen lines) =
      { Facts.ofLines lines with
        accesses := (Facts.ofLines lines).accesses.map fun x =>
          x.moveBy (addedLength lines (untabLines chosen lines) x.line) } := by
  have hlines := reindented_untabLines chosen lines
  have hfunctions := Function.ofLines_eq hlines
  have hloads (base : Option Extends) :=
    Script.loads_ignoresLayout base _ _ (Function.ofLines lines) hlines
  have hstrings := Script.strings_ignoresLayout _ _ [] hlines
  unfold Facts.ofLines
  rw [Script.accesses_untabLines, ← hfunctions, ← Marker.ofLines_eq hlines]
  simp only [← Script.declared_ignoresLayout _ _ _ hlines, ← hloads, ← hstrings,
    ← Script.nodeRefs_ignoresLayout _ _ _ hlines, ← Script.awaits_ignoresLayout _ _ _ hlines,
    ← Script.matchBlocks_ignoresLayout _ _ _ hlines, ← Script.numbers_ignoresLayout _ _ _ hlines,
    ← Mention.ofLines_ignoresLayout _ _ _ hlines]

end GodotLint
