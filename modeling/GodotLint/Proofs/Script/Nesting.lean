import GodotLint.Proofs.Pattern.Scan
import GodotLint.Proofs.Script.Ranges
import Mathlib.Data.Nat.Count
import Mathlib.Data.Finset.Lattice.Fold

/-!
# Nesting of blocks

A line opens a block if its code is a keyword of control flow and something that ends in a colon
(`OpensBlock`). A line lies in the blocks above it whose openers are indented less than all code from
there on, up to the line itself (`Encloses`). The reader keeps the indentations of open blocks, the
innermost first. They fall strictly, so that the blocks that a line closes are the first ones, and what is
left are the blocks that the line lies in. The deepest nesting of the lines is therefore that of the line
that lies in the most blocks (`nesting_eq_deepest`).
-/

namespace GodotLint.Function

open Text Pattern

/-! ## Lines that open a block -/

/-- The words that open a block of control flow. -/
def blockKeywords : List String := ["if", "elif", "else", "for", "while", "match"]

/-- The code of a line is a keyword, which ends there as a word, and something that ends in a colon. -/
def OpensBlock (line : List Char) : Prop :=
  ∃ keyword ∈ blockKeywords, ∃ between,
    trim (Line.code line) = keyword.toList ++ (between ++ [':']) ∧
      (∀ c ∈ between.head?, isWordChar c = false) ∧ '\n' ∉ between

/-- A keyword ends as a word where none of its characters follow. -/
theorem isWordEdge_keyword {keyword : String} (h : keyword ∈ blockKeywords) (between : List Char) :
    (Cursor.between keyword.toList (between ++ [':'])).isWordEdge = true ↔
      ∀ c ∈ between.head?, isWordChar c = false := by
  have hlast : keyword.toList.getLast?.elim false isWordChar = true := by
    revert keyword
    decide
  rw [Cursor.isWordEdge, Cursor.between_previous, Cursor.between_rest, hlast]
  cases between with
  | nil =>
      have hcolon : isWordChar ':' = false := by decide
      simp [hcolon]
  | cons c between => simp

/-- The pattern of block openers tells the lines that open a block. -/
theorem occursIn_blockOpener_iff {line : List Char} :
    blockOpener.occursIn (trim (Line.code line)) = true ↔ OpensBlock line := by
  have hany : ∀ {pre w post gs}, (star any).Accepts pre w post gs ↔ (∀ x ∈ w, x ≠ '\n') ∧ gs = [] :=
    accepts_star fun _ _ _ _ => accepts_any
  have hkeywords : blockKeywords ≠ [] := by decide
  rw [occursIn_iff]
  constructor
  · rintro ⟨pre, w, post, gs, hcode, hacc⟩
    unfold blockOpener at hacc
    simp only [accepts_append_assoc] at hacc
    obtain ⟨rfl, hacc⟩ := accepts_atStart_append.mp hacc
    obtain ⟨_, _, _, _, rfl, rfl, hword, hrest⟩ := accepts_append.mp hacc
    obtain ⟨_, hgroup, rfl⟩ := accepts_group.mp hword
    obtain ⟨⟨keyword, hkeyword, rfl⟩, rfl⟩ := (accepts_word hkeywords).mp hgroup
    obtain ⟨hedge, hrest⟩ := accepts_wordEdge_append.mp hrest
    obtain ⟨between, _, rfl, hfeed, hend⟩ := (accepts_append_of_left fun _ _ _ _ => hany).mp hrest
    obtain ⟨hcolon, rfl⟩ := accepts_append_atEnd.mp hend
    obtain ⟨rfl, rfl⟩ := accepts_char.mp hcolon
    refine ⟨keyword, hkeyword, between, by simpa using hcode, ?_, fun h => hfeed _ h rfl⟩
    rw [List.append_nil, List.nil_append] at hedge
    exact (isWordEdge_keyword hkeyword between).mp hedge
  · rintro ⟨keyword, hkeyword, between, hcode, hedge, hfeed⟩
    have hword : (word blockKeywords).Accepts [] keyword.toList (between ++ [':'] ++ []) [] :=
      (accepts_word hkeywords).mpr ⟨⟨keyword, hkeyword, rfl⟩, rfl⟩
    refine ⟨[], _, [], [(1, ⟨0, keyword.toList⟩)], by simpa using hcode, ?_⟩
    unfold blockOpener
    simp only [accepts_append_assoc]
    refine accepts_atStart_append.mpr ⟨rfl, accepts_append.mpr ⟨keyword.toList, between ++ [':'],
      _, [], rfl, rfl, accepts_group.mpr ⟨[], hword, rfl⟩, accepts_wordEdge_append.mpr ⟨?_, ?_⟩⟩⟩
    · rw [List.append_nil, List.nil_append]
      exact (isWordEdge_keyword hkeyword between).mpr hedge
    · exact (accepts_append_of_left fun _ _ _ _ => hany).mpr ⟨between, [':'], rfl,
        fun x hx h => hfeed (h ▸ hx), accepts_append_atEnd.mpr ⟨accepts_char.mpr ⟨rfl, rfl⟩, rfl⟩⟩

/-! ## Blocks around a line -/

/-- Line `i` opens a block at depth `d`. Lines count from zero in this section. -/
def OpensAt (lines : List (List Char)) (i d : Nat) : Prop :=
  ∃ line, lines[i]? = some line ∧ OpensBlock line ∧ Line.indent line = d

/-- All code from line `i` to line `j` is deeper than `d`. -/
def DeeperThan (d : Nat) (lines : List (List Char)) (i j : Nat) : Prop :=
  ∀ k, i ≤ k → k ≤ j → ∀ e, depthAt? lines (k + 1) = some e → d < e

/-- Line `i` opens a block in which line `j` lies: all code below it, up to line `j`, is deeper. -/
def Encloses (lines : List (List Char)) (i j : Nat) : Prop :=
  ∃ d, OpensAt lines i d ∧ DeeperThan d lines (i + 1) j

open Classical in
/-- The number of blocks above a line in which it lies. -/
noncomputable def nestingAt (lines : List (List Char)) (j : Nat) : Nat :=
  Nat.count (Encloses lines · j) j

/-- The lines with code. -/
def codeLines (lines : List (List Char)) : Finset Nat :=
  (Finset.range lines.length).filter fun j => (depthAt? lines (j + 1)).isSome

/-- The nesting of the line that lies in the most blocks. -/
noncomputable def deepest (lines : List (List Char)) : Nat := (codeLines lines).sup (nestingAt lines)

variable {lines : List (List Char)} {line : List Char} {blocks : List Nat} {d n i j : Nat}

theorem mem_codeLines_iff : j ∈ codeLines lines ↔ (depthAt? lines (j + 1)).isSome := by
  rw [codeLines, Finset.mem_filter, Finset.mem_range, and_iff_right_iff_imp]
  intro h
  by_contra hlength
  rw [depthAt?, List.getElem?_eq_none (not_lt.mp hlength)] at h
  cases h

/-- A number bounds the deepest nesting if it bounds the nesting of each line with code. -/
theorem deepest_le_iff :
    deepest lines ≤ n ↔ ∀ j, (depthAt? lines (j + 1)).isSome → nestingAt lines j ≤ n := by
  simp only [deepest, Finset.sup_le_iff, mem_codeLines_iff]

theorem deeperThan_cons_succ : DeeperThan d (line :: lines) (i + 1) (j + 1) ↔ DeeperThan d lines i j := by
  constructor
  · intro h k hi hj e he
    exact h (k + 1) (by omega) (by omega) e he
  · rintro h (_ | k) hi hj e he
    · omega
    · exact h k (by omega) (by omega) e he

theorem deeperThan_zero : DeeperThan d (line :: lines) 0 0 ↔ ∀ e ∈ Line.depth? line, d < e := by
  constructor
  · intro h
    exact h 0 le_rfl le_rfl
  · rintro h k - hk e he
    obtain rfl := Nat.le_zero.mp hk
    exact h e he

/-- Code is deep from the first line on if it is so on that line and from the next line on. -/
theorem deeperThan_cons : DeeperThan d (line :: lines) 0 (j + 1) ↔
    (∀ e ∈ Line.depth? line, d < e) ∧ DeeperThan d lines 0 j := by
  constructor
  · intro h
    exact ⟨h 0 le_rfl (Nat.zero_le _), fun k _ hk => h (k + 1) (Nat.zero_le _) (by omega)⟩
  · rintro ⟨hfirst, hrest⟩ (_ | k) - hk
    · exact hfirst
    · exact hrest k (Nat.zero_le _) (by omega)

theorem encloses_cons_succ : Encloses (line :: lines) (i + 1) (j + 1) ↔ Encloses lines i j := by
  simp only [Encloses, deeperThan_cons_succ]
  rfl

theorem encloses_cons_zero : Encloses (line :: lines) 0 (j + 1) ↔
    OpensBlock line ∧ DeeperThan (Line.indent line) lines 0 j := by
  simp [Encloses, OpensAt, deeperThan_cons_succ]

open Classical in
/-- A line more above adds one block if it opens one. -/
theorem nestingAt_cons_succ : nestingAt (line :: lines) (j + 1) = nestingAt lines j +
    if OpensBlock line ∧ DeeperThan (Line.indent line) lines 0 j then 1 else 0 := by
  simp only [nestingAt, Nat.count_succ', encloses_cons_succ, encloses_cons_zero]

/-! ## The reader -/

/-- Among depths that fall strictly, the ones below a depth are those behind the first of them. -/
theorem dropWhile_eq_filter (hfall : blocks.Pairwise (· > ·)) (d : Nat) :
    blocks.dropWhile (d ≤ ·) = blocks.filter (· < d) := by
  induction blocks with
  | nil => rfl
  | cons b blocks ih =>
      obtain ⟨hb, hrest⟩ := List.pairwise_cons.mp hfall
      by_cases hd : d ≤ b
      · rw [List.dropWhile_cons_of_pos (by simpa using hd), ih hrest,
          List.filter_cons_of_neg (by simpa using hd)]
      · have hall : ∀ c ∈ b :: blocks, decide (c < d) = true := by
          intro c hc
          rcases List.mem_cons.mp hc with rfl | hc
          · simpa using hd
          · have := hb c hc
            simp only [decide_eq_true_eq]
            omega
        rw [List.dropWhile_cons_of_neg (by simpa using hd), List.filter_eq_self.mpr hall]

/-- The blocks that are open behind a line with code of depth `d`. -/
def openBehind (line : List Char) (blocks : List Nat) : List Nat :=
  let blocks := blocks.dropWhile (Line.indent line ≤ ·)
  if blockOpener.occursIn (trim (Line.code line)) then Line.indent line :: blocks else blocks

theorem nesting_cons_of_code (h : Line.isBlankOrComment line = false) :
    nesting blocks (line :: lines) = max (blocks.dropWhile (Line.indent line ≤ ·)).length
      (nesting (openBehind line blocks) lines) := by
  simp [nesting, h, openBehind]

/-- The depths of open blocks fall strictly. -/
theorem pairwise_openBehind (hfall : blocks.Pairwise (· > ·)) :
    (openBehind line blocks).Pairwise (· > ·) := by
  rw [openBehind, dropWhile_eq_filter hfall]
  have hrest := hfall.filter (· < Line.indent line)
  split_ifs
  · refine List.pairwise_cons.mpr ⟨fun b hb => ?_, hrest⟩
    simpa using (List.mem_filter.mp hb).2
  · exact hrest

open Classical in
/-- The open blocks that keep a promise are the one that the line opens, if it does, and those of the blocks
before that the line does not close. -/
theorem countP_openBehind (hfall : blocks.Pairwise (· > ·)) (P : Nat → Prop) :
    (openBehind line blocks).countP (P ·) = blocks.countP (fun b => b < Line.indent line ∧ P b) +
      if OpensBlock line ∧ P (Line.indent line) then 1 else 0 := by
  have hrest : (blocks.filter (· < Line.indent line)).countP (P ·) =
      blocks.countP fun b => b < Line.indent line ∧ P b := by
    rw [List.countP_filter]
    refine List.countP_congr fun b _ => ?_
    simp [and_comm]
  rw [openBehind, dropWhile_eq_filter hfall]
  simp only [occursIn_blockOpener_iff]
  split_ifs with hopens hboth hboth
  · rw [List.countP_cons_of_pos (by simpa using hboth.2), hrest]
  · have hP : ¬ P (Line.indent line) := fun h => hboth ⟨hopens, h⟩
    rw [List.countP_cons_of_neg (by simpa using hP), hrest, Nat.add_zero]
  · exact absurd hboth.1 hopens
  · rw [hrest, Nat.add_zero]

/-- A line that opens a block has code. -/
theorem isBlankOrComment_of_opensBlock (h : OpensBlock line) : Line.isBlankOrComment line = false := by
  obtain ⟨keyword, -, between, hcode, -, -⟩ := h
  by_contra hblank
  rw [Bool.not_eq_false, Line.isBlankOrComment, isAllBlank, List.all_eq_true] at hblank
  rw [trim, trimStart, List.dropWhile_eq_nil_iff.mpr hblank] at hcode
  have hlast : ':' ∈ trimEnd [] := hcode ▸ by simp
  cases hlast

open Classical in
/-- A number bounds the nesting that is reached if it bounds the number of blocks around each line with
code: those that the lines above it open, and those that were open before. -/
theorem nesting_le_iff (hfall : blocks.Pairwise (· > ·)) : nesting blocks lines ≤ n ↔
    ∀ j, (depthAt? lines (j + 1)).isSome →
      nestingAt lines j + blocks.countP (DeeperThan · lines 0 j) ≤ n := by
  induction lines generalizing blocks with
  | nil => simp [nesting, depthAt?]
  | cons line lines ih =>
      rw [← Nat.and_forall_add_one]
      cases hcode : Line.isBlankOrComment line with
      | true =>
          -- the line neither counts itself nor opens or closes a block
          have hdepth : Line.depth? line = none := if_pos hcode
          have hopens : ¬ OpensBlock line := fun h => by
            rw [isBlankOrComment_of_opensBlock h] at hcode
            cases hcode
          rw [nesting, if_pos hcode, ih hfall]
          simp [hdepth, nestingAt_cons_succ, hopens, deeperThan_cons]
      | false =>
          have hdepth : Line.depth? line = some (Line.indent line) := by simp [Line.depth?, hcode]
          rw [nesting_cons_of_code hcode, max_le_iff, ih (pairwise_openBehind hfall)]
          refine and_congr ?_ (forall_congr' fun j => imp_congr_right fun _ => ?_)
          · rw [dropWhile_eq_filter hfall, ← List.countP_eq_length_filter]
            simp [hdepth, nestingAt, deeperThan_zero]
          · simp only [nestingAt_cons_succ, countP_openBehind hfall (DeeperThan · lines 0 j),
              deeperThan_cons, hdepth, Option.mem_some_iff, forall_eq']
            rw [Nat.add_assoc, Nat.add_comm (ite _ _ _)]

theorem nesting_eq_deepest (lines : List (List Char)) : nesting [] lines = deepest lines := by
  refine eq_of_forall_ge_iff fun n => ?_
  rw [nesting_le_iff .nil, deepest_le_iff]
  rfl

/-- The lines of the body of a function. -/
def bodyOf (f : Function) (lines : List (List Char)) : List (List Char) :=
  (lines.drop f.line).take f.bodyLines

/-- The deepest nesting in a function is read from the lines of its body. -/
theorem maxNesting_eq_nesting {f : Function} (hf : f ∈ ofLines lines) :
    f.maxNesting = nesting [] (f.bodyOf lines) := by
  obtain ⟨above, line, below, rfl, h⟩ := mem_scan_iff.mp hf
  obtain ⟨hline, hend⟩ := line_of_ofHeader? h
  have hbody : f.bodyOf (above ++ line :: below) = below.take (bodyLength f.indent below) := by
    have hdrop : (above ++ line :: below).drop f.line = below := by
      rw [hline, Nat.add_comm, List.drop_length_add_append]
      rfl
    rw [bodyOf, hdrop, bodyLines, hend, hline, Nat.add_sub_cancel_left]
  obtain ⟨m, -, rfl⟩ := Option.map_eq_some_iff.mp h
  rw [hbody]

/-- **The deepest nesting of lines is that of the line with code that lies in the most blocks**, however the
lines are indented. So it is told of each function of a script by the lines of its body. -/
theorem maxNesting_isDeepest :
    (∀ body, nesting [] body = deepest body) ∧
    ∀ lines, (ofLines lines).map (·.maxNesting) = (ofLines lines).map fun f => deepest (f.bodyOf lines) := by
  refine ⟨nesting_eq_deepest, fun lines => List.map_congr_left fun f hf => ?_⟩
  rw [maxNesting_eq_nesting hf, nesting_eq_deepest]

end GodotLint.Function
