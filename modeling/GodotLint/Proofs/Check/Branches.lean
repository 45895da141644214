import GodotLint.Check.Branches
import GodotLint.Proofs.Project.Loaded
import GodotLint.Proofs.Script.Labels

/-!
# Patterns that are matched twice

The check of match blocks goes through the patterns of a block from top to bottom and keeps the line on
which it met each of them first. So it reports the patterns that the block has further up, and names the
first line that has them (`mem_repeatedPatternIssues_iff`). The lines are those of the branches: each stands
on a line of its own, in rising order, and its patterns are the alternatives of the label on that line
(`exists_labelAt?_of_mem`, `pairwise_line_branches`). What is compared is what stands before a guard. The
earlier branch matches the pattern in any case exactly if its label has no ` when `
(`matchStatements_tellsRepeats`); if it has, both branches may be reached.
-/

namespace GodotLint

open Text

namespace Script

/-! ## The branches of a block -/

/-- The label on a line, the lines counted from one. -/
def labelAt? (lines : List (List Char)) : (number : Nat) → Option (List Char)
  | 0 => none
  | n + 1 => lines[n]?.bind fun raw => branchLabel? (trim (Line.code raw))

theorem labelAt?_of_mem {lines : List (List Char)} {raw : List Char} {line : Nat}
    (h : (raw, line) ∈ lines.zipIdx 1) : labelAt? lines line = branchLabel? (trim (Line.code raw)) := by
  obtain ⟨hle, hraw⟩ := List.mk_mem_zipIdx_iff_le_and_getElem?_sub.mp h
  obtain ⟨n, rfl⟩ := Nat.exists_eq_add_of_le' hle
  rw [Nat.add_sub_cancel] at hraw
  rw [labelAt?, hraw, Option.bind_some]

section branches

variable {headerIndent line : Nat} {level : Option Nat} {raw : List Char}
  {below lines : List (List Char)} {functions : List Function} {branch : Branch} {block : MatchBlock}

/-- A line adds the branch that stands on it, if there is one, to those below, if the block goes on. -/
theorem exists_branchesBelow_cons : ∃ (here : Option Branch) (later : List Branch),
    branchesBelow headerIndent level line (raw :: below) = here.toList ++ later ∧
      (∀ branch ∈ here, branch.line = line ∧ ∃ label,
        branchLabel? (trim (Line.code raw)) = some label ∧ branch.patterns = labelPatterns label) ∧
      (later = [] ∨ ∃ level, later = branchesBelow headerIndent level (line + 1) below) := by
  rw [branchesBelow]
  dsimp only
  split_ifs
  · exact ⟨none, _, rfl, by simp, .inr ⟨level, rfl⟩⟩
  · exact ⟨none, [], rfl, by simp, .inl rfl⟩
  · refine ⟨_, _, rfl, ?_, .inr ⟨_, rfl⟩⟩
    intro branch hbranch
    obtain ⟨label, hlabel, rfl⟩ := Option.map_eq_some_iff.mp hbranch
    exact ⟨rfl, label, hlabel, rfl⟩
  · exact ⟨none, _, rfl, by simp, .inr ⟨_, rfl⟩⟩

/-- A branch stands on one of the lines and has the alternatives of its label. -/
theorem exists_of_mem_branchesBelow (h : branch ∈ branchesBelow headerIndent level line below) :
    ∃ raw label, (raw, branch.line) ∈ below.zipIdx line ∧
      branchLabel? (trim (Line.code raw)) = some label ∧ branch.patterns = labelPatterns label := by
  induction below generalizing line level with
  | nil => cases h
  | cons raw below ih =>
      obtain ⟨here, later, hsplit, hhere, hlater⟩ := exists_branchesBelow_cons
      rw [hsplit, List.mem_append] at h
      rcases h with h | h
      · obtain ⟨rfl, label, hlabel, hpatterns⟩ := hhere branch (Option.mem_toList.mp h)
        exact ⟨raw, label, List.mem_cons_self, hlabel, hpatterns⟩
      · rcases hlater with rfl | ⟨level, rfl⟩
        · cases h
        · obtain ⟨raw, label, hmem, hlabel⟩ := ih h
          exact ⟨raw, label, List.mem_cons_of_mem _ hmem, hlabel⟩

/-- No branch stands above the lines. -/
theorem le_line_of_mem_branchesBelow (h : branch ∈ branchesBelow headerIndent level line below) :
    line ≤ branch.line := by
  obtain ⟨raw, label, hmem, -⟩ := exists_of_mem_branchesBelow h
  exact (List.mk_mem_zipIdx_iff_le_and_getElem?_sub.mp hmem).1

/-- The branches stand on lines of their own, in rising order. -/
theorem pairwise_line_branchesBelow :
    (branchesBelow headerIndent level line below).Pairwise (·.line < ·.line) := by
  induction below generalizing line level with
  | nil => exact List.Pairwise.nil
  | cons raw below ih =>
      obtain ⟨here, later, hsplit, hhere, hlater⟩ := exists_branchesBelow_cons
      rw [hsplit, List.pairwise_append]
      refine ⟨?_, ?_, ?_⟩
      · cases here <;> simp
      · rcases hlater with rfl | ⟨level, rfl⟩
        · exact List.Pairwise.nil
        · exact ih
      · intro branch hbranch other hother
        obtain ⟨rfl, -⟩ := hhere branch (Option.mem_toList.mp hbranch)
        rcases hlater with rfl | ⟨level, rfl⟩
        · cases hother
        · exact le_line_of_mem_branchesBelow hother

/-- The branches of a block are those below its header. -/
theorem exists_branches_eq (h : block ∈ matchBlocksFrom functions line lines) :
    ∃ indent start below, block.branches = branchesBelow indent none start below ∧
      ∀ x ∈ below.zipIdx start, x ∈ lines.zipIdx line := by
  induction lines generalizing line with
  | nil => cases h
  | cons raw lines ih =>
      unfold matchBlocksFrom at h
      rcases List.mem_append.mp h with h | h
      · rw [Option.mem_toList, Option.map_eq_some_iff] at h
        obtain ⟨m, -, rfl⟩ := h
        refine ⟨_, line + 1, lines, rfl, ?_⟩
        intro x hx
        exact List.mem_cons_of_mem _ hx
      · obtain ⟨indent, start, below, hbranches, hmem⟩ := ih h
        refine ⟨indent, start, below, hbranches, ?_⟩
        intro x hx
        exact List.mem_cons_of_mem _ (hmem x hx)

/-- The patterns of a branch are the alternatives of the label on its line. -/
theorem exists_labelAt?_of_mem (hblock : block ∈ matchBlocks lines functions)
    (hbranch : branch ∈ block.branches) : ∃ label, labelAt? lines branch.line = some label ∧
      branch.patterns = labelPatterns label := by
  obtain ⟨indent, start, below, hbranches, hlines⟩ := exists_branches_eq hblock
  rw [hbranches] at hbranch
  obtain ⟨raw, label, hmem, hlabel, hpatterns⟩ := exists_of_mem_branchesBelow hbranch
  exact ⟨label, (labelAt?_of_mem (hlines _ hmem)).trans hlabel, hpatterns⟩

/-- The branches of a block stand on lines of their own, from top to bottom. -/
theorem pairwise_line_branches (hblock : block ∈ matchBlocks lines functions) :
    block.branches.Pairwise (·.line < ·.line) := by
  obtain ⟨indent, start, below, hbranches, -⟩ := exists_branches_eq hblock
  rw [hbranches]
  exact pairwise_line_branchesBelow

/-- The patterns of a block stand on lines from top to bottom. -/
theorem pairwise_line_patterns (hblock : block ∈ matchBlocks lines functions) :
    block.patterns.Pairwise (·.2 ≤ ·.2) := by
  unfold MatchBlock.patterns
  rw [List.pairwise_flatMap]
  constructor
  · intro branch _
    rw [List.pairwise_map]
    exact List.pairwise_of_forall fun _ _ => le_rfl
  · apply (pairwise_line_branches hblock).imp
    intro a b hlt x hx y hy
    obtain ⟨_, -, rfl⟩ := List.mem_map.mp hx
    obtain ⟨_, -, rfl⟩ := List.mem_map.mp hy
    exact hlt.le

/-- A pattern of a block is an alternative of the label on its line. -/
theorem exists_labelAt?_of_mem_patterns {pattern : String} (hblock : block ∈ matchBlocks lines functions)
    (h : (pattern, line) ∈ block.patterns) : ∃ label, labelAt? lines line = some label ∧
      pattern ∈ labelPatterns label := by
  obtain ⟨branch, hbranch, hpattern⟩ := List.mem_flatMap.mp h
  obtain ⟨pattern', hmem, heq⟩ := List.mem_map.mp hpattern
  obtain ⟨rfl, rfl⟩ := Prod.mk.inj heq
  obtain ⟨label, hlabel, hpatterns⟩ := exists_labelAt?_of_mem hblock hbranch
  exact ⟨label, hlabel, hpatterns ▸ hmem⟩

end branches

end Script

namespace Check

/-! ## Repetitions -/

/-- The report of a pattern that a block has on an earlier line. -/
def repetitionIssue (file pattern : String) (first line : Nat) : Issue :=
  .rated "match_statements" file line "duplicate_pattern"
    ("pattern " ++ pattern ++ " already matched on line " ++ toString first) .high

/-- A pattern of a block that the block has further up; `first` is the line on which it stands first. -/
def IsRepetition (b : MatchBlock) (pattern : String) (first line : Nat) : Prop :=
  ∃ u v w, b.patterns = u ++ (pattern, first) :: (v ++ (pattern, line) :: w) ∧
    ∀ x ∈ u, x.1 ≠ pattern

variable {file : String} {seen patterns : List (String × Nat)} {i : Issue} {b : MatchBlock}
  {pattern : String} {first line : Nat}

theorem IsRepetition.mem (h : IsRepetition b pattern first line) : (pattern, first) ∈ b.patterns := by
  obtain ⟨u, v, w, hsplit, -⟩ := h
  simp [hsplit]

/-- The first line is further up, or the same. -/
theorem IsRepetition.le (h : IsRepetition b pattern first line)
    (hlines : b.patterns.Pairwise (·.2 ≤ ·.2)) : first ≤ line := by
  obtain ⟨u, v, w, hsplit, -⟩ := h
  rw [hsplit, List.pairwise_append, List.pairwise_cons] at hlines
  exact hlines.2.1.1 (pattern, line) (by simp)

/-- Behind one more pattern, it is found if the others are not. -/
theorem lookup_concat (above : List (String × Nat)) (head : String × Nat) (pattern : String) :
    (above ++ [head]).lookup pattern =
      (above.lookup pattern).or (if pattern = head.1 then some head.2 else none) := by
  rw [List.lookup_append, List.lookup_cons, List.lookup_nil]
  by_cases h : pattern = head.1
  · simp [h]
  · simp [h, beq_eq_false_iff_ne.mpr h]

/-- An element of a list is the first one, or one of the others. -/
theorem exists_eq_append_cons_iff {α : Type} {head : α} {rest : List α} {P : List α → α → Prop} :
    (∃ u x w, head :: rest = u ++ x :: w ∧ P u x) ↔
      P [] head ∨ ∃ u x w, rest = u ++ x :: w ∧ P (head :: u) x := by
  constructor
  · rintro ⟨u, x, w, h, hP⟩
    rcases List.cons_eq_append_iff.mp h with ⟨rfl, hrest⟩ | ⟨u, rfl, rfl⟩
    · obtain ⟨rfl, -⟩ := List.cons.inj hrest
      exact .inl hP
    · exact .inr ⟨u, x, w, rfl, hP⟩
  · rintro (hP | ⟨u, x, w, rfl, hP⟩)
    · exact ⟨[], head, rest, rfl, hP⟩
    · exact ⟨head :: u, x, w, rfl, hP⟩

/-- A pattern is reported if the patterns further up have it, with the first of their lines; `seen` knows
the first lines of those above the ones that are looked at. -/
theorem mem_repeatedPatternIssues_iff (above : List (String × Nat))
    (hseen : ∀ p, seen.lookup p = above.lookup p) :
    i ∈ repeatedPatternIssues file seen patterns ↔ ∃ u x w, patterns = u ++ x :: w ∧
      ∃ first, (above ++ u).lookup x.1 = some first ∧ i = repetitionIssue file x.1 first x.2 := by
  induction patterns generalizing seen above with
  | nil => simp [repeatedPatternIssues]
  | cons head rest ih =>
      rw [exists_eq_append_cons_iff, List.append_nil, repeatedPatternIssues]
      -- what follows is read below one more pattern
      have hbelow : ∀ {seen}, (∀ p, seen.lookup p = (above ++ [head]).lookup p) →
          (i ∈ repeatedPatternIssues file seen rest ↔ ∃ u x w, rest = u ++ x :: w ∧
            ∃ first, (above ++ head :: u).lookup x.1 = some first ∧
              i = repetitionIssue file x.1 first x.2) := by
        intro seen hseen
        have h := ih _ hseen
        simpa only [List.append_assoc, List.cons_append, List.nil_append] using h
      cases hlookup : seen.lookup head.1 with
      | some first =>
          have hrest : ∀ p, seen.lookup p = (above ++ [head]).lookup p := by
            intro p
            rw [lookup_concat, ← hseen]
            split_ifs with h
            · rw [h, hlookup, Option.some_or]
            · rw [Option.or_none]
          have hhere : (∃ n, above.lookup head.1 = some n ∧ i = repetitionIssue file head.1 n head.2) ↔
              i = repetitionIssue file head.1 first head.2 := by
            simp [← hseen, hlookup]
          rw [hhere, ← hbelow hrest]
          exact List.mem_cons
      | none =>
          have hrest : ∀ p, (head :: seen).lookup p = (above ++ [head]).lookup p := by
            intro p
            rw [lookup_concat, ← hseen, List.lookup_cons]
            by_cases h : p = head.1
            · simp [h, hlookup]
            · simp [h, beq_eq_false_iff_ne.mpr h]
          have hhere : ¬ ∃ n, above.lookup head.1 = some n ∧
              i = repetitionIssue file head.1 n head.2 := by
            simp [← hseen, hlookup]
          rw [or_iff_right hhere, ← hbelow hrest]

/-- What is reported of a block is what it has further up. -/
theorem mem_repeatedPatternIssues_patterns_iff : i ∈ repeatedPatternIssues file [] b.patterns ↔
    ∃ pattern first line, IsRepetition b pattern first line ∧
      i = repetitionIssue file pattern first line := by
  rw [mem_repeatedPatternIssues_iff [] fun _ => rfl]
  constructor
  · rintro ⟨above, ⟨pattern, line⟩, w, hsplit, first, hfirst, rfl⟩
    obtain ⟨u, v, rfl, hne⟩ := List.lookup_eq_some_iff.mp hfirst
    refine ⟨pattern, first, line, ⟨u, v, w, by simpa using hsplit, fun x hx => ?_⟩, rfl⟩
    exact (bne_iff_ne.mp (hne x hx)).symm
  · rintro ⟨pattern, first, line, ⟨u, v, w, hsplit, hne⟩, rfl⟩
    refine ⟨u ++ (pattern, first) :: v, (pattern, line), w, by simpa using hsplit, first, ?_, rfl⟩
    exact List.lookup_eq_some_iff.mpr ⟨u, v, rfl, fun x hx => bne_iff_ne.mpr (hne x hx).symm⟩

/-- The other reports of a block are of other kinds. -/
theorem mem_matchIssues_iff : i ∈ matchIssues file b ∧ i.kind = "duplicate_pattern" ↔
    ∃ pattern first line, IsRepetition b pattern first line ∧
      i = repetitionIssue file pattern first line := by
  have hmissing : i ∈ missingDefaultIssue? file b → i.kind = "missing_default" := by
    intro h
    rw [Option.mem_def, missingDefaultIssue?] at h
    split_ifs at h
    cases h
    rfl
  have hlarge : i ∈ largeBlockIssue? file b → i.kind = "large_match" := by
    intro h
    rw [Option.mem_def, largeBlockIssue?] at h
    split_ifs at h
    cases h
    rfl
  rw [← mem_repeatedPatternIssues_patterns_iff, matchIssues, List.mem_append, List.mem_append,
    Option.mem_toList, Option.mem_toList]
  constructor
  · rintro ⟨(h | h) | h, hkind⟩
    · exact absurd ((hmissing h).symm.trans hkind) (by decide)
    · exact absurd ((hlarge h).symm.trans hkind) (by decide)
    · exact h
  · intro h
    obtain ⟨pattern, first, line, -, rfl⟩ := mem_repeatedPatternIssues_patterns_iff.mp h
    exact ⟨.inr h, rfl⟩

/-! ## The check -/

/-- A label matches a pattern in any case: it has the pattern, and counts as a whole, without a guard that
is cut off. -/
def IsUnconditional (label : List Char) (pattern : String) : Prop :=
  pattern ∈ Script.labelPatterns label ∧ Script.unguarded label = label

/-- What is told of patterns that are matched twice. -/
structure TellsRepetitions (c : Context) (findings : Findings) : Prop where
  /-- The patterns are reported that a block has further up, with the first line that has them. -/
  repetition : ∀ i, i ∈ findings.issues ∧ i.kind = "duplicate_pattern" ↔
    ∃ s ∈ c.scripts, ∃ b ∈ s.facts.matchBlocks, ∃ pattern first line,
      IsRepetition b pattern first line ∧ i = repetitionIssue s.path pattern first line
  /-- The earlier branch has the pattern as well, and matches it in any case exactly if there is no ` when `
  in its label. -/
  earlier : ∀ s ∈ c.scripts, ∀ b ∈ s.facts.matchBlocks, ∀ pattern first line,
    IsRepetition b pattern first line → first ≤ line ∧
      ∃ label, Script.labelAt? s.source.lines first = some label ∧
        pattern ∈ Script.labelPatterns label ∧
          (IsUnconditional label pattern ↔ ¬ " when ".toList <:+: label)

/-- **A pattern is reported if it is matched twice**, whether or not the first match has a guard. -/
theorem matchStatements_tellsRepetitions {c : Context} (hp : c.project.IsLoaded) :
    ∃ findings, matchStatements.run c = .finished findings ∧ TellsRepetitions c findings := by
  refine ⟨_, rfl, ?_, ?_⟩
  · intro i
    simp only [List.mem_flatMap, List.mem_map]
    constructor
    · rintro ⟨⟨_, ⟨s, hs, b, hb, rfl⟩, hi⟩, hkind⟩
      exact ⟨s, hs, b, hb, mem_matchIssues_iff.mp ⟨hi, hkind⟩⟩
    · rintro ⟨s, hs, b, hb, h⟩
      obtain ⟨hi, hkind⟩ := mem_matchIssues_iff.mpr h
      exact ⟨⟨_, ⟨s, hs, b, hb, rfl⟩, hi⟩, hkind⟩
  · intro s hs b hb pattern first line h
    have hblock : b ∈ Script.matchBlocks s.source.lines s.facts.functions := by
      rw [Project.facts_of_mem_scripts hp hs] at hb ⊢
      exact hb
    obtain ⟨label, hlabel, hpattern⟩ := Script.exists_labelAt?_of_mem_patterns hblock h.mem
    refine ⟨h.le (Script.pairwise_line_patterns hblock), label, hlabel, hpattern, ?_⟩
    unfold IsUnconditional
    rw [Script.unguarded_eq_self_iff]
    exact and_iff_right hpattern

/-- A block of two branches that bind the same variable under guards that exclude each other. -/
def guarded : Project := .ofFiles {} [("a.gd",
  "func f(x):\n\tmatch x:\n\t\tvar y when y > 1:\n\t\t\tpass\n\t\tvar y when y < 0:\n\t\t\tpass\n")]

theorem matchStatements_tellsRepetitions_guarded :
    ∃ findings, matchStatements.run ⟨guarded, {}⟩ = .finished findings ∧
      TellsRepetitions ⟨guarded, {}⟩ findings :=
  matchStatements_tellsRepetitions (.ofFiles ..)

/-- The second branch is reported although the first one does not match in any case. -/
theorem matchStatements_disregards_guards :
    (∃ findings, matchStatements.run ⟨guarded, {}⟩ = .finished findings ∧
      findings.issues = [repetitionIssue "a.gd" "var y" 3 5]) ∧
    ∃ s ∈ guarded.scripts, s.path = "a.gd" ∧
      Script.labelAt? s.source.lines 3 = some "var y when y > 1".toList ∧
      Script.labelAt? s.source.lines 5 = some "var y when y < 0".toList ∧
      ¬ IsUnconditional "var y when y > 1".toList "var y" := by
  have hscript : ∃ s ∈ guarded.scripts, s.path = "a.gd" ∧
      Script.labelAt? s.source.lines 3 = some "var y when y > 1".toList ∧
      Script.labelAt? s.source.lines 5 = some "var y when y < 0".toList := by
    decide +kernel
  obtain ⟨s, hs, hpath, hfirst, hsecond⟩ := hscript
  have hguard : " when ".toList <:+: "var y when y > 1".toList := by decide +kernel
  refine ⟨⟨_, rfl, by decide +kernel⟩, s, hs, hpath, hfirst, hsecond, ?_⟩
  intro h
  exact Script.unguarded_eq_self_iff.mp h.2 hguard

end Check

end GodotLint
