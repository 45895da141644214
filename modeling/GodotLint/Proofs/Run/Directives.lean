import GodotLint.Check.Printing
import GodotLint.Proofs.Line.Scanners
import GodotLint.Proofs.Pattern.Parts
import GodotLint.Proofs.Pattern.Scan
import GodotLint.Proofs.Run.Failure

/-!
# Where directives stand

A directive is looked for in a line as it is, without regard to string literals. It starts with a comment
mark, so it lies in the comment of its line unless the mark is inside a literal of the code
(`liesInComment_iff`). `ofSources_areSited` says so of every directive of every script, and of every issue
that is silenced; `silences_quoted` is an issue that a literal silences.
-/

namespace GodotLint

open Text Line

variable {raw : List Char} {start : Nat}

/-! ## Comments and literals -/

/-- An offset lies in the comment of a line. -/
def LiesInComment (raw : List Char) (start : Nat) : Prop :=
  ∃ mark, commentStart? raw = some mark ∧ mark ≤ start

/-- An offset lies in the code of a line, inside a literal. -/
def LiesInLiteral (raw : List Char) (start : Nat) : Prop :=
  start < width (code raw) ∧ isInsideLiteral (code raw) start = true

instance (raw : List Char) (start : Nat) : Decidable (LiesInLiteral raw start) :=
  inferInstanceAs (Decidable (_ ∧ _))

/-- A comment starts where the code ends. -/
theorem eq_width_code {mark : Nat} (h : commentStart? raw = some mark) : mark = width (code raw) := by
  obtain ⟨-, -, rfl⟩ := Option.map_eq_some_iff.mp h
  rfl

/-- A line that has something behind its code has a comment there. -/
theorem commentStart?_of_standsAt {s : List Char} (h : StandsAt raw start s) (hs : s ≠ [])
    (hbehind : width (code raw) ≤ start) : commentStart? raw = some (width (code raw)) := by
  obtain ⟨rest, hraw, -, hcloses⟩ := code_spec raw
  rcases hcloses with rfl | ⟨houtside, comment, rfl⟩
  · -- the line is all code, which is too short
    obtain ⟨a, b, hsplit, rfl⟩ := h
    have hwidth := congrArg width (hraw.symm.trans hsplit)
    have hpos := width_pos hs
    simp only [width_append, width_nil] at hwidth
    omega
  · exact ((commentStart?_spec raw).1 _).mpr (isLeast_commentMarks hraw houtside)

/-- **A comment mark lies in the comment of its line, unless it is inside a literal of the code.** -/
theorem liesInComment_iff (h : StandsAt raw start ['#']) :
    LiesInComment raw start ↔ ¬ LiesInLiteral raw start := by
  constructor
  · rintro ⟨mark, hmark, hle⟩ ⟨hlt, -⟩
    rw [eq_width_code hmark] at hle
    omega
  · intro hliteral
    by_cases hbehind : width (code raw) ≤ start
    · exact ⟨_, commentStart?_of_standsAt h (List.cons_ne_nil _ _) hbehind, hbehind⟩
    · -- in the code, a mark that is not inside of a literal would end it
      rw [not_le] at hbehind
      obtain ⟨rest, hraw, -, -⟩ := code_spec raw
      have hplace : isInsideLiteral raw start = isInsideLiteral (code raw) start := by
        conv_lhs => rw [hraw]
        rw [isInsideLiteral, isInsideLiteral, quotingAt_append_of_le hbehind.le]
      have houtside : isInsideLiteral raw start = false := by
        rw [hplace, Bool.eq_false_iff]
        exact fun hinside => hliteral ⟨hbehind, hinside⟩
      exact absurd (width_code_le_of_mem ⟨h, houtside⟩) (not_le.mpr hbehind)

namespace Suppression

open Pattern

variable {file : String} {number : Nat} {inHeader : Bool} {d : Suppression} {lines : List (List Char)}

/-! ## Directives of a line -/

/-- Whatever a pattern accepts starts with a character. -/
def Opens (c : Char) (p : Pattern) : Prop :=
  ∀ pre w post gs, p.Accepts pre w post gs → ∃ v, w = c :: v

theorem opens_char (c : Char) : Opens c (.char c) :=
  fun _ _ _ _ h => ⟨[], (accepts_char.mp h).1⟩

/-- What starts with a character still does if something follows. -/
theorem Opens.append {c : Char} {p : Pattern} (hp : Opens c p) (q : Pattern) : Opens c (p ++ q) := by
  intro pre w post gs h
  obtain ⟨u, v, gu, -, rfl, -, hu, -⟩ := accepts_append.mp h
  obtain ⟨u, rfl⟩ := hp pre u _ gu hu
  exact ⟨u ++ v, rfl⟩

/-- A directive starts with a comment mark. -/
theorem opens_directive : Opens '#' directive :=
  (opens_char '#').append _ |>.append _ |>.append _ |>.append _ |>.append _ |>.append _ |>.append _

/-- The place of a directive in a script: it is read from the text that starts at an offset of a line. -/
structure IsSite (lines : List (List Char)) (d : Suppression) (number : Nat) (raw : List Char)
    (start : Nat) : Prop where
  line_eq : lines[number - 1]? = some raw
  /-- The text that spells the directive, and what the directive says. -/
  spelled : ∃ m, directive.find? raw = some m ∧ m.start = start ∧ d.target = str (m.group 2) ∧
    d.reason = str (trim (m.group 3))
  /-- A directive of the whole file has no line. -/
  number_eq : d.line = if d.scope = .file then 0 else number
  mark : StandsAt raw start ['#']

/-- A directive is read from a text that starts with a comment mark. -/
theorem exists_of_ofLine? (h : ofLine? file raw number inHeader = some d) :
    ∃ m, directive.find? raw = some m ∧ StandsAt raw m.start ['#'] ∧ d.target = str (m.group 2) ∧
      d.reason = str (trim (m.group 3)) ∧ d.line = if d.scope = .file then 0 else number := by
  unfold ofLine? at h
  obtain ⟨m, hm, h⟩ := Option.bind_eq_some_iff.mp h
  obtain ⟨scope, -, h⟩ := Option.bind_eq_some_iff.mp h
  cases h
  obtain ⟨pre, w, post, gs, rfl, hacc, rfl⟩ := find?_eq_some hm
  obtain ⟨v, rfl⟩ := opens_directive pre w post gs hacc
  exact ⟨_, hm, ⟨pre, v ++ post, by simp, rfl⟩, rfl, rfl, rfl⟩

/-- Each directive has a place in the script. -/
theorem exists_isSite_of_mem_scan {above : List (List Char)}
    (h : d ∈ scan file inHeader (above.length + 1) lines) :
    ∃ number raw start, IsSite (above ++ lines) d number raw start := by
  induction lines generalizing above inHeader with
  | nil => cases h
  | cons raw rest ih =>
      rw [scan] at h
      rcases List.mem_append.mp h with h | h
      · obtain ⟨m, hm, hmark, htarget, hreason, hnumber⟩ :=
          exists_of_ofLine? (Option.mem_toList.mp h)
        exact ⟨above.length + 1, raw, m.start, by simp, ⟨m, hm, rfl, htarget, hreason⟩, hnumber,
          hmark⟩
      · have hlength : above.length + 1 + 1 = (above ++ [raw]).length + 1 := by simp
        rw [hlength] at h
        simpa using ih h

theorem exists_isSite (h : d ∈ ofLines file lines) : ∃ number raw start,
    IsSite lines d number raw start := by
  have hscan : d ∈ scan file true (([] : List (List Char)).length + 1) lines := h
  exact exists_isSite_of_mem_scan hscan

end Suppression

namespace Run

open Suppression

variable {sources : List Source} {lines : List (List Char)} {d : Suppression}

/-- A directive comes from the comment of its line. -/
def IsCommented (lines : List (List Char)) (d : Suppression) : Prop :=
  ∃ number raw start, IsSite lines d number raw start ∧ LiesInComment raw start

/-- No line has the first text that spells a directive inside a literal. -/
def NoneQuoted (lines : List (List Char)) : Prop :=
  ∀ raw ∈ lines, ∀ m, directive.find? raw = some m → ¬ LiesInLiteral raw m.start

theorem isCommented_of_noneQuoted {file : String} (hnone : NoneQuoted lines)
    (hd : d ∈ ofLines file lines) : IsCommented lines d := by
  obtain ⟨number, raw, start, hsite⟩ := exists_isSite hd
  obtain ⟨m, hm, rfl, -⟩ := hsite.spelled
  have hraw : raw ∈ lines := List.mem_of_getElem? hsite.line_eq
  exact ⟨number, raw, m.start, hsite, (liesInComment_iff hsite.mark).mpr (hnone raw hraw m hm)⟩

/-- Where the directives of some scripts come from. -/
structure AreSited (sources : List Source) : Prop where
  /-- Every directive comes from the comment of its line or, if not, from a literal. -/
  sited : ∀ s ∈ sources, ∀ d ∈ ofLines s.path s.lines, ∃ number raw start,
    IsSite s.lines d number raw start ∧ (LiesInComment raw start ↔ ¬ LiesInLiteral raw start)
  /-- A script that spells no directive inside a literal has its directives in comments. -/
  commented : ∀ s ∈ sources, NoneQuoted s.lines → ∀ d ∈ ofLines s.path s.lines, IsCommented s.lines d
  /-- If no script does, whatever is silenced is silenced by a comment of its file. -/
  silenced : (∀ s ∈ sources, NoneQuoted s.lines) →
    ∀ i, (Suppressions.ofSources sources).silences i = true →
      ∃ s ∈ sources, s.path = i.file ∧
        ∃ d ∈ ofLines s.path s.lines, d.covers i = true ∧ IsCommented s.lines d

/-- **Directives stand in comments, or else in literals**, whatever the lines of the scripts are. -/
theorem ofSources_areSited (sources : List Source) : AreSited sources where
  sited := by
    intro s _ d hd
    obtain ⟨number, raw, start, hsite⟩ := exists_isSite hd
    exact ⟨number, raw, start, hsite, liesInComment_iff hsite.mark⟩
  commented := fun s _ hnone d => isCommented_of_noneQuoted hnone
  silenced := by
    intro hnone i hsilenced
    obtain ⟨s, hs, hpath, d, hd, hcovers⟩ := exists_directive_of_silences hsilenced
    exact ⟨s, hs, hpath, d, hd, hcovers, isCommented_of_noneQuoted (hnone s hs) hd⟩

/-! ## A literal that silences -/

/-- A script that prints the text of a directive. -/
def quoted : Source := .ofText "a.gd" "print(\"# gdscan:ignore * \")".toList

/-- A script without a comment has a directive, which silences what the script prints. -/
theorem silences_quoted : (∀ raw ∈ quoted.lines, commentStart? raw = none) ∧
    (∀ raw ∈ quoted.lines, ∀ m, directive.find? raw = some m → LiesInLiteral raw m.start) ∧
    ofLines quoted.path quoted.lines =
      [{ file := "a.gd", line := 1, scope := .line, target := "*", reason := "" }] ∧
    (Suppressions.ofSources [quoted]).silences (Check.printIssue "a.gd" 1 "print") = true := by
  decide +kernel

end Run

end GodotLint
