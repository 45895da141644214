import GodotLint.Line.Basic
import GodotLint.Proofs.Line.Quoting
import GodotLint.Proofs.Text.Bytes

/-!
# Slices by offsets

The readers of this library cut texts where they stand. A reader that keeps byte offsets cuts them by
number instead, and such a cut can go wrong: the offset may lie beyond the end of the text, or inside of
a character. `Checked` is for functions that cut by number and stop where a cut is not possible. A slice
is taken exactly between two parts of a text (`slice_eq_ok_iff`), so the offsets that a reader has from
the text before a place are always good (`slice_append`).

The first cut is that of a line into code and comment (`code_eq`, `comment_eq`).
-/

namespace GodotLint

open Text

/-- Why a function that cuts by number stops. -/
inductive Misplaced where
  /-- An offset or index lies beyond the end, or the end of a slice before its start. -/
  | outOfRange
  /-- An offset lies inside of a character. -/
  | insideCharacter
  /-- A loop has not ended after as many rounds as there are bytes. -/
  | endless
  deriving DecidableEq, Repr

/-- The result of a function that cuts by number, or why it stops. -/
abbrev Checked (α : Type) := Except Misplaced α

namespace Offset

variable {α β : Type}

/-! ## Results -/

@[simp] theorem pure_eq_ok (x : α) : (pure x : Checked α) = .ok x := rfl

@[simp] theorem ok_bind (x : α) (f : α → Checked β) : ((.ok x : Checked α) >>= f) = f x := rfl

@[simp] theorem true_andM (y : Checked Bool) : ((.ok true : Checked Bool) <&&> y) = y := rfl

@[simp] theorem false_andM (y : Checked Bool) : ((.ok false : Checked Bool) <&&> y) = .ok false := rfl

/-- Where every element has a result, so does the list. -/
theorem mapM_eq_ok {f : α → Checked β} {g : α → β} {l : List α} (h : ∀ x ∈ l, f x = .ok (g x)) :
    l.mapM f = .ok (l.map g) := by
  induction l with
  | nil => rfl
  | cons x l ih =>
      obtain ⟨hx, hl⟩ := List.forall_mem_cons.mp h
      rw [List.mapM_cons, hx, ih hl]
      rfl

/-- The elements that a list has in some places, one for each of the others. -/
theorem reduceOption_map (f : α → Option β) (l : List α) :
    (l.map f).reduceOption = l.filterMap f := by
  rw [List.reduceOption, List.filterMap_map]
  rfl

/-! ## Slices of lists -/

/-- The element at an index. -/
def row (l : List α) (index : Nat) : Checked α :=
  match l[index]? with
  | some x => .ok x
  | none => .error .outOfRange

/-- The elements from one index up to another. -/
def rows (l : List α) (start stop : Nat) : Checked (List α) :=
  if start ≤ stop ∧ stop ≤ l.length then .ok ((l.take stop).drop start) else .error .outOfRange

/-- The list with another element at an index. -/
def setRow (l : List α) (index : Nat) (x : α) : Checked (List α) :=
  if index < l.length then .ok (l.set index x) else .error .outOfRange

theorem row_append_cons (a : List α) (x : α) (b : List α) : row (a ++ x :: b) a.length = .ok x := by
  simp [row]

theorem rows_append_right (a b : List α) : rows (a ++ b) a.length (a ++ b).length = .ok b := by
  rw [rows, if_pos ⟨by simp, le_rfl⟩, List.take_length, List.drop_left]

/-! ## Slices of texts -/

/-- A byte offset that lies between two characters of a text, or at one of its ends. -/
def IsBoundary (s : List Char) (offset : Nat) : Prop := width (takeBytes offset s) = offset

instance (s : List Char) (offset : Nat) : Decidable (IsBoundary s offset) :=
  inferInstanceAs (Decidable (_ = _))

theorem takeBytes_append_dropBytes (n : Nat) (s : List Char) :
    takeBytes n s ++ dropBytes n s = s := by
  induction s generalizing n with
  | nil => rfl
  | cons c s ih =>
      rw [takeBytes, dropBytes]
      split_ifs
      · rw [List.cons_append, ih]
      · rfl

theorem isBoundary_iff {s : List Char} {offset : Nat} :
    IsBoundary s offset ↔ ∃ a b, s = a ++ b ∧ offset = width a := by
  constructor
  · intro h
    exact ⟨_, _, (takeBytes_append_dropBytes offset s).symm, h.symm⟩
  · rintro ⟨a, b, rfl, rfl⟩
    rw [IsBoundary, takeBytes_width_append]

/-- The text from one byte offset up to another. -/
def slice (s : List Char) (start stop : Nat) : Checked (List Char) :=
  if ¬(start ≤ stop ∧ stop ≤ width s) then .error .outOfRange
  else if IsBoundary s start ∧ IsBoundary s stop then .ok (dropBytes start (takeBytes stop s))
  else .error .insideCharacter

/-- The offsets around a part of a text give this part. -/
theorem slice_append (a m b : List Char) :
    slice (a ++ m ++ b) (width a) (width (a ++ m)) = .ok m := by
  have hrange : width a ≤ width (a ++ m) ∧ width (a ++ m) ≤ width (a ++ m ++ b) := by
    simp only [width_append]
    omega
  have hstart : IsBoundary (a ++ m ++ b) (width a) :=
    isBoundary_iff.mpr ⟨a, m ++ b, List.append_assoc .., rfl⟩
  have hstop : IsBoundary (a ++ m ++ b) (width (a ++ m)) := isBoundary_iff.mpr ⟨a ++ m, b, rfl, rfl⟩
  rw [slice, if_neg (not_not.mpr hrange), if_pos ⟨hstart, hstop⟩, takeBytes_width_append,
    dropBytes_width_append]

/-- A slice is taken exactly where the offsets lie around a part of the text. -/
theorem slice_eq_ok_iff {s m : List Char} {start stop : Nat} :
    slice s start stop = .ok m ↔
      ∃ a b, s = a ++ m ++ b ∧ start = width a ∧ stop = width (a ++ m) := by
  constructor
  · intro h
    rw [slice] at h
    split_ifs at h with hrange hboundary
    obtain ⟨a, u, rfl, rfl⟩ := isBoundary_iff.mp hboundary.1
    obtain ⟨b, v, hs, rfl⟩ := isBoundary_iff.mp hboundary.2
    obtain ⟨t, rfl⟩ := prefix_of_width_le hs hrange.1
    rw [hs, takeBytes_width_append, dropBytes_width_append] at h
    cases h
    exact ⟨a, v, hs, rfl, rfl⟩
  · rintro ⟨a, b, rfl, rfl, rfl⟩
    exact slice_append a m b

/-- An offset inside of a character is no place for a cut. -/
example : slice ['ä', 'x'] 1 3 = .error .insideCharacter := by decide

theorem slice_left (a b : List Char) : slice (a ++ b) 0 (width a) = .ok a := slice_append [] a b

theorem slice_right (a b : List Char) : slice (a ++ b) (width a) (width (a ++ b)) = .ok b := by
  simpa using slice_append a b []

/-- The text with another part between two offsets. -/
def replaceRange (s : List Char) (start stop : Nat) (part : List Char) : Checked (List Char) := do
  let before ← slice s 0 start
  let _ ← slice s start stop
  let after ← slice s stop (width s)
  return before ++ part ++ after

theorem replaceRange_append (a m b part : List Char) :
    replaceRange (a ++ m ++ b) (width a) (width (a ++ m)) part = .ok (a ++ part ++ b) := by
  have hbefore : slice (a ++ m ++ b) 0 (width a) = .ok a := by
    rw [List.append_assoc, slice_left]
  simp only [replaceRange, hbefore, slice_append, slice_right]
  rfl

/-! ## Code and comment -/

/-- The code of a line, cut by the offset of the comment mark. -/
def code (line : List Char) : Checked (List Char) :=
  match Line.commentStart? line with
  | some start => slice line 0 start
  | none => .ok line

/-- The text after the comment mark, cut by its offset. -/
def comment (line : List Char) : Checked (Option (List Char)) :=
  match Line.commentStart? line with
  | some start => some <$> slice line (start + 1) (width line)
  | none => .ok none

/-- A line is its code, with the comment mark and the comment if there is one. -/
theorem eq_append_cutComment (q : Quoting) (line : List Char) :
    line = (Line.cutComment q line).1 ++
      ((Line.cutComment q line).2.map ('#' :: ·)).getD [] := by
  induction line generalizing q with
  | nil => cases q <;> rfl
  | cons c line ih =>
      by_cases hmark : q = .outside ∧ c = '#'
      · obtain ⟨rfl, rfl⟩ := hmark
        rfl
      · rw [Line.cutComment]
        · simpa using ih (q.next c)
        · rintro rfl rfl
          exact hmark ⟨rfl, rfl⟩

theorem code_eq (line : List Char) : code line = .ok (Line.code line) := by
  have hline := eq_append_cutComment .outside line
  rw [code, Line.commentStart?]
  cases hcomment : Line.comment? line with
  | none =>
      rw [Line.comment?] at hcomment
      rw [hcomment, Option.map_none, Option.getD_none, List.append_nil] at hline
      exact congrArg Except.ok hline
  | some text =>
      change slice line 0 (width (Line.code line)) = _
      nth_rewrite 1 [hline]
      exact slice_left ..

theorem comment_eq (line : List Char) : comment line = .ok (Line.comment? line) := by
  have hline := eq_append_cutComment .outside line
  rw [comment, Line.commentStart?]
  cases hcomment : Line.comment? line with
  | none => rfl
  | some text =>
      rw [Line.comment?] at hcomment
      rw [hcomment, Option.map_some, Option.getD_some, List.append_cons] at hline
      have hslice := slice_right (Line.code line ++ ['#']) text
      have hwidth : width (Line.code line ++ ['#']) = width (Line.code line) + 1 := by
        rw [width_append]
        rfl
      rw [hwidth] at hslice
      change some <$> slice line (width (Line.code line) + 1) (width line) = _
      rw [Line.code, ← hline] at hslice
      rw [Line.code, hslice]
      rfl

end Offset

end GodotLint
