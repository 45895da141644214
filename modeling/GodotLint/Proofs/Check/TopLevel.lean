import GodotLint.Check.Repetition
import GodotLint.Proofs.Script.Ranges

/-!
# Code outside of functions

The lines that have code and are in no function fall into runs, and a run goes on for as long as such a line
follows. The lines are read one by one. At each of them the run that is open holds the code of all lines
just above it, up to one that has none or is in a function (`IsOpenRun`): a line of code goes on with the run,
and any other line closes it. So every run that is closed goes as far as it can in both directions
(`IsRun`), and every line with code is in one of them (`arePieces_runsFrom`).
-/

namespace GodotLint.Text

theorem isEmpty_trim (s : List Char) : (trim s).isEmpty = isAllBlank s := by
  induction s with
  | nil => rfl
  | cons c s ih =>
      cases hc : isBlank c with
      | true =>
          rw [trim, trimStart, List.dropWhile_cons, if_pos hc, isAllBlank, List.all_cons, hc,
            Bool.true_and]
          exact ih
      | false => simp [trim, trimStart, trimEnd, dropEndWhile, isAllBlank, hc]

end GodotLint.Text

namespace GodotLint.Check

open Text

/-! ## The code of a line -/

section code

variable {functions : List Function}

/-- The code of a line outside of every function, without blanks around it, if the line has code. -/
def outerCode? (functions : List Function) (number : Nat) (line : List Char) : Option (List Char) :=
  if Line.isBlankOrComment line || functions.any (·.contains number) then none
  else some (trim (Line.code line))

/-- The same by the number of the line, counted from one. -/
def outerCodeAt? (functions : List Function) (lines : List (List Char)) :
    (number : Nat) → Option (List Char)
  | 0 => none
  | n + 1 => lines[n]?.bind (outerCode? functions (n + 1))

theorem outerCode?_eq_none_iff {number : Nat} {line : List Char} :
    outerCode? functions number line = none ↔
      Line.isBlankOrComment line = true ∨ ∃ f ∈ functions, number ∈ f.range := by
  rw [outerCode?]
  split_ifs with hnone
  · simpa [Function.contains_iff] using hnone
  · simpa [Function.contains_iff, not_or] using hnone

theorem outerCodeAt?_eq_none_iff {lines : List (List Char)} {i : Nat} :
    outerCodeAt? functions lines (i + 1) = none ↔ ∀ line, lines[i]? = some line →
      Line.isBlankOrComment line = true ∨ ∃ f ∈ functions, i + 1 ∈ f.range := by
  simp only [outerCodeAt?, Option.bind_eq_none_iff, outerCode?_eq_none_iff]

/-- The code of a line, where it is outside of every function. -/
theorem map_trim_of_outerCodeAt? {lines : List (List Char)} {i : Nat} {code : List Char}
    (h : outerCodeAt? functions lines (i + 1) = some code) :
    lines[i]?.map (fun line => trim (Line.code line)) = some code := by
  obtain ⟨line, hline, hcode⟩ := Option.bind_eq_some_iff.mp h
  rw [outerCode?] at hcode
  split_ifs at hcode
  rw [hline, ← hcode]
  rfl

/-- One round of the reader: a line of code goes on with the run that is open, another one closes it. -/
theorem runsFrom_cons (run : List (List Char)) (number : Nat) (line : List Char)
    (rest : List (List Char)) : runsFrom functions run number (line :: rest) =
      match outerCode? functions number line with
      | none => runsFrom.close run number ++ runsFrom functions [] (number + 1) rest
      | some code => runsFrom functions (code :: run) (number + 1) rest := by
  rw [runsFrom, isEmpty_trim, outerCode?, Line.isBlankOrComment]
  split_ifs <;> rfl

end code

/-! ## One run -/

/-- The lines of a run. -/
def Run.range (r : Run) : Set Nat := Set.Icc r.first r.last

variable {code : Nat → Option (List Char)}

/-- A run has the code of its lines, and neither the line above them nor the one below has code. -/
structure IsRun (code : Nat → Option (List Char)) (r : Run) : Prop where
  first_pos : 0 < r.first
  first_le_last : r.first ≤ r.last
  length : r.last + 1 = r.first + r.code.length
  codes : ∀ i < r.code.length, code (r.first + i) = r.code[i]?
  above : code (r.first - 1) = none
  below : code (r.last + 1) = none

/-- The lines just above `number` that have code, up to one that has none, have that of `run`, the last
line first. -/
structure IsOpenRun (code : Nat → Option (List Char)) (run : List (List Char)) (number : Nat) : Prop where
  length_lt : run.length < number
  codes : ∀ i < run.length, code (number - run.length + i) = run.reverse[i]?
  above : code (number - run.length - 1) = none

variable {run : List (List Char)} {number : Nat}

/-- Below a line without code, no run is open. -/
theorem isOpenRun_nil (h : code number = none) : IsOpenRun code [] (number + 1) where
  length_lt := Nat.succ_pos _
  codes := by simp
  above := h

/-- A line of code goes on with the run that is open. -/
theorem IsOpenRun.cons (h : IsOpenRun code run number) {c : List Char} (hc : code number = some c) :
    IsOpenRun code (c :: run) (number + 1) := by
  have hlt := h.length_lt
  have hfirst : number + 1 - (c :: run).length = number - run.length := by
    rw [List.length_cons]
    omega
  refine ⟨by simpa using hlt, fun i hi => ?_, by rw [hfirst]; exact h.above⟩
  rw [hfirst, List.reverse_cons]
  rcases Nat.lt_succ_iff_lt_or_eq.mp hi with hi | rfl
  · rw [List.getElem?_append_left (by simpa using hi), h.codes i hi]
  · rw [Nat.sub_add_cancel hlt.le, hc]
    simp

/-- A run that is closed ends above the line that closes it. -/
theorem IsOpenRun.close (h : IsOpenRun code run number) (hend : code number = none) :
    ∀ r ∈ runsFrom.close run number, IsRun code r ∧ r.first = number - run.length ∧
      r.last + 1 = number := by
  intro r hr
  rw [runsFrom.close] at hr
  split_ifs at hr with hempty
  · cases hr
  · obtain rfl := List.mem_singleton.mp hr
    have hlt := h.length_lt
    have hpos : 0 < run.length := List.length_pos_of_ne_nil (by simpa using hempty)
    have hfirst : 0 < number - run.length := by omega
    have hbounds : number - run.length ≤ number - 1 := by omega
    have hlast : number - 1 + 1 = number := by omega
    refine ⟨⟨hfirst, hbounds, ?_, ?_, h.above, ?_⟩, rfl, hlast⟩
    · rw [List.length_reverse]
      exact hlast.trans (Nat.sub_add_cancel hlt.le).symm
    · simpa using h.codes
    · rw [hlast]
      exact hend

/-- The lines of the run that is open are those of the run that is closed. -/
theorem exists_mem_close {n : Nat} (h : number - run.length ≤ n) (hn : n < number) :
    ∃ r ∈ runsFrom.close run number, n ∈ r.range := by
  have hne : run.isEmpty = false := by
    cases run with
    | nil => simp only [List.length_nil] at h; omega
    | cons => rfl
  rw [runsFrom.close, hne]
  exact ⟨_, List.mem_singleton_self _, h, Nat.le_sub_one_of_lt hn⟩

/-! ## All runs -/

/-- From a line on, the runs have all lines with code, one behind the other. -/
structure ArePieces (code : Nat → Option (List Char)) (start : Nat) (runs : List Run) : Prop where
  isRun : ∀ r ∈ runs, IsRun code r
  start_le : ∀ r ∈ runs, start ≤ r.first
  apart : runs.Pairwise fun r s => r.last + 1 < s.first
  covered : ∀ n, start ≤ n → code n ≠ none → ∃ r ∈ runs, n ∈ r.range

theorem pairwise_close {R : Run → Run → Prop} : (runsFrom.close run number).Pairwise R := by
  rw [runsFrom.close]
  split_ifs <;> simp

/-- A line without code closes the run that is open, and the runs below it follow. -/
theorem ArePieces.close_append {runs : List Run} (hrun : IsOpenRun code run number)
    (hend : code number = none) (h : ArePieces code (number + 1) runs) :
    ArePieces code (number - run.length) (runsFrom.close run number ++ runs) where
  isRun := List.forall_mem_append.mpr ⟨fun r hr => (hrun.close hend r hr).1, h.isRun⟩
  start_le := by
    refine List.forall_mem_append.mpr ⟨fun r hr => (hrun.close hend r hr).2.1.ge, fun r hr => ?_⟩
    have hle := h.start_le r hr
    omega
  apart := by
    refine List.pairwise_append.mpr ⟨pairwise_close, h.apart, fun r hr s hs => ?_⟩
    obtain ⟨-, -, hlast⟩ := hrun.close hend r hr
    have hle := h.start_le s hs
    omega
  covered := by
    intro n hn hcode
    rcases lt_trichotomy n number with hlt | rfl | hlt
    · obtain ⟨r, hr, hmem⟩ := exists_mem_close hn hlt
      exact ⟨r, List.mem_append_left _ hr, hmem⟩
    · exact absurd hend hcode
    · obtain ⟨r, hr, hmem⟩ := h.covered n hlt hcode
      exact ⟨r, List.mem_append_right _ hr, hmem⟩

theorem arePieces_runsFrom {functions : List Function} {rest : List (List Char)}
    (hrest : ∀ i, code (number + i) = rest[i]?.bind (outerCode? functions (number + i)))
    (hrun : IsOpenRun code run number) :
    ArePieces code (number - run.length) (runsFrom functions run number rest) := by
  induction rest generalizing run number with
  | nil =>
      have hnone : ∀ i, code (number + i) = none := fun i => by simpa using hrest i
      have hbelow : ArePieces code (number + 1) [] := by
        refine ⟨by simp, by simp, .nil, fun n hn hcode => absurd ?_ hcode⟩
        obtain ⟨i, rfl⟩ := Nat.exists_eq_add_of_le (Nat.le_of_succ_le hn)
        exact hnone i
      simpa [runsFrom] using hbelow.close_append hrun (hnone 0)
  | cons line rest ih =>
      have hline : code number = outerCode? functions number line := hrest 0
      have hbelow : ∀ i, code (number + 1 + i) =
          rest[i]?.bind (outerCode? functions (number + 1 + i)) := by
        intro i
        rw [Nat.add_assoc, Nat.add_comm 1]
        exact hrest (i + 1)
      rw [runsFrom_cons]
      cases hcode : outerCode? functions number line with
      | none =>
          have hend : code number = none := hline.trans hcode
          exact (ih hbelow (isOpenRun_nil hend)).close_append hrun hend
      | some c => simpa using ih hbelow (hrun.cons (hline.trans hcode))

/-- The runs of the lines of a script have all its code outside of functions. -/
theorem arePieces_topLevelRuns (lines : List (List Char)) (functions : List Function) :
    ArePieces (outerCodeAt? functions lines) 1 (topLevelRuns lines functions) := by
  refine arePieces_runsFrom (fun i => ?_) (isOpenRun_nil rfl)
  rw [Nat.add_comm]
  rfl

/-- Runs are the parts into which the code of some lines outside of functions falls. Lines are counted from
one, so that line `i + 1` is the one at index `i`. -/
structure IsPartition (lines : List (List Char)) (functions : List Function) (runs : List Run) :
    Prop where
  bounds : ∀ r ∈ runs, 0 < r.first ∧ r.first ≤ r.last ∧ r.last ≤ lines.length
  /-- The runs lie one below the other, ... -/
  rising : runs.Pairwise fun r s => r.last < s.first
  /-- ... and have the lines of code that are in no function, and no other lines. -/
  mem_iff : ∀ i, (∃ r ∈ runs, i + 1 ∈ r.range) ↔ ∃ line, lines[i]? = some line ∧
    ¬ Line.isBlankOrComment line = true ∧ ∀ f ∈ functions, i + 1 ∉ f.range
  codes : ∀ r ∈ runs, r.code =
    ((lines.take r.last).drop (r.first - 1)).map fun line => trim (Line.code line)
  /-- The lines just above a run and just below it are blank, comments or in a function. -/
  maximal : ∀ r ∈ runs, ∀ i line, i + 1 + 1 = r.first ∨ i + 1 = r.last + 1 → lines[i]? = some line →
    Line.isBlankOrComment line = true ∨ ∃ f ∈ functions, i + 1 ∈ f.range

section partition

variable {functions : List Function} {lines : List (List Char)} {r : Run} {runs : List Run}

/-- The lines of a run are those whose code it has. -/
theorem IsRun.mem_range_iff (h : IsRun code r) {n : Nat} :
    n ∈ r.range ↔ ∃ i < r.code.length, n = r.first + i := by
  have hlength := h.length
  rw [Run.range, Set.mem_Icc]
  constructor
  · rintro ⟨hfirst, hlast⟩
    exact ⟨n - r.first, by omega, by omega⟩
  · rintro ⟨i, hi, rfl⟩
    omega

theorem IsRun.ne_none_of_mem (h : IsRun code r) {n : Nat} (hn : n ∈ r.range) : code n ≠ none := by
  obtain ⟨i, hi, rfl⟩ := h.mem_range_iff.mp hn
  rw [h.codes i hi, List.getElem?_eq_getElem hi]
  exact Option.some_ne_none _

theorem IsRun.map_trim (h : IsRun (outerCodeAt? functions lines) r) {i : Nat}
    (hi : i < r.code.length) :
    lines[r.first - 1 + i]?.map (fun line => trim (Line.code line)) = r.code[i]? := by
  have hpos := h.first_pos
  have hcode := h.codes i hi
  have hnumber : r.first + i = r.first - 1 + i + 1 := by omega
  rw [List.getElem?_eq_getElem hi, hnumber] at hcode
  rw [List.getElem?_eq_getElem hi]
  exact map_trim_of_outerCodeAt? hcode

theorem IsRun.last_le (h : IsRun (outerCodeAt? functions lines) r) : r.last ≤ lines.length := by
  have hlength := h.length
  have hpos := h.first_pos
  have hle := h.first_le_last
  have hi : r.last - r.first < r.code.length := by omega
  have hline := h.map_trim hi
  rw [List.getElem?_eq_getElem hi] at hline
  obtain ⟨line, hline, -⟩ := Option.map_eq_some_iff.mp hline
  obtain ⟨hlt, -⟩ := List.getElem?_eq_some_iff.mp hline
  omega

theorem IsRun.code_eq (h : IsRun (outerCodeAt? functions lines) r) : r.code =
    ((lines.take r.last).drop (r.first - 1)).map fun line => trim (Line.code line) := by
  have hlength := h.length
  have hpos := h.first_pos
  refine List.ext_getElem? fun i => ?_
  rw [List.getElem?_map, List.getElem?_drop]
  by_cases hi : i < r.code.length
  · rw [List.getElem?_take_of_lt (by omega), h.map_trim hi]
  · rw [List.getElem?_eq_none (by omega), List.getElem?_eq_none (by rw [List.length_take]; omega)]
    rfl

theorem ArePieces.isPartition (h : ArePieces (outerCodeAt? functions lines) 1 runs) :
    IsPartition lines functions runs where
  bounds := fun r hr => ⟨(h.isRun r hr).first_pos, (h.isRun r hr).first_le_last, (h.isRun r hr).last_le⟩
  rising := h.apart.imp fun hlt => Nat.lt_of_succ_lt hlt
  mem_iff := by
    intro i
    have hcode : (∃ r ∈ runs, i + 1 ∈ r.range) ↔ outerCodeAt? functions lines (i + 1) ≠ none :=
      ⟨fun ⟨r, hr, hi⟩ => (h.isRun r hr).ne_none_of_mem hi, h.covered _ (Nat.le_add_left ..)⟩
    rw [hcode, Ne, outerCodeAt?_eq_none_iff]
    push Not
    rfl
  codes := fun r hr => (h.isRun r hr).code_eq
  maximal := by
    intro r hr i line hi hline
    have hrun := h.isRun r hr
    have hnone : outerCodeAt? functions lines (i + 1) = none := by
      rcases hi with hi | hi
      · rw [Nat.eq_sub_of_add_eq hi]
        exact hrun.above
      · rw [hi]
        exact hrun.below
    exact outerCodeAt?_eq_none_iff.mp hnone line hline

end partition

/-- **The code of a script outside of its functions falls into runs**: they have all of it, line by line, and
none of them can be extended. -/
theorem isPartition_topLevelRuns (lines : List (List Char)) :
    IsPartition lines (Function.ofLines lines) (topLevelRuns lines (Function.ofLines lines)) :=
  (arePieces_topLevelRuns lines (Function.ofLines lines)).isPartition

/-- Two lines of code, a comment, a function, and one line of code behind it. -/
def codeAroundFunction : List (List Char) :=
  lines "const A = 1 # one\nvar b\n# two\nfunc f():\n\tpass\nvar c\n".toList

example : (topLevelRuns codeAroundFunction (Function.ofLines codeAroundFunction)).map
    (fun r => (r.first, r.last)) = [(1, 2), (6, 6)] := by decide +kernel

end GodotLint.Check
