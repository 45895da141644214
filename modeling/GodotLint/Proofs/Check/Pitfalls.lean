import GodotLint.Check.Pitfalls
import GodotLint.Proofs.Pattern.Literals
import GodotLint.Proofs.Pattern.Parts
import GodotLint.Script.Branch

/-!
# Which lines have a pitfall

A line has a pitfall if its pattern has a match that starts outside of literals. The check and the reader
of `await` look at the first match of a line only, so each tells of the lines that have what it looks for,
except for those on which the first match starts inside a literal (`pitfalls_tellsLines`).
-/

namespace GodotLint

open Text

namespace PitfallMessage

/-- A match is a finding: what compares two sides finds only what has the same on both. -/
def IsFinding : PitfallMessage → Pattern.Match → Prop
  | .always _, _ => True
  | .sameSides, m => m.group 1 = m.group 2

theorem text?_isSome_iff {message : PitfallMessage} {m : Pattern.Match} :
    (message.text? m).isSome = true ↔ message.IsFinding m := by
  cases message with
  | always text => simp [text?, IsFinding]
  | sameSides => simp [text?, IsFinding]

end PitfallMessage

namespace Pitfall

variable {p q : Pitfall} {code : List Char} {function : Option String}

/-- A line of code has the pitfall: a finding starts outside of literals. -/
def IsOn (p : Pitfall) (code : List Char) : Prop :=
  ∃ m, p.pattern.IsMatchIn code m ∧ Line.isInsideLiteral code m.start = false ∧
    p.message.IsFinding m

/-- Sides are compared only where the whole line is matched. -/
theorem isAnchored_of_sameSides :
    ∀ p ∈ all, p.message = .sameSides → p.pattern.isAnchored = true := by
  decide +kernel

/-- No two pitfalls have the same name. -/
theorem eq_of_id_eq (hp : p ∈ all) (hq : q ∈ all) (h : p.id = q.id) : p = q := by
  have hnodup : (all.map (·.id)).Nodup := by decide +kernel
  exact List.inj_on_of_nodup_map hnodup hp hq h

/-- The first match is a finding if there is a finding at all. -/
theorem isFinding_of_find? (hp : p ∈ all) {m n : Pattern.Match} (hm : p.pattern.IsMatchIn code m)
    (hn : p.pattern.IsMatchIn code n) (hfinding : p.message.IsFinding n) : p.message.IsFinding m := by
  cases hmessage : p.message with
  | always text => trivial
  | sameSides =>
      have hanchored := isAnchored_of_sameSides p hp hmessage
      have hstart : m.start = n.start := by
        rw [hm.start_eq_zero hanchored, hn.start_eq_zero hanchored]
      rwa [hm.eq_of_start_eq hn hstart, ← hmessage]

/-- A line is told to have a pitfall if it is in the scope and has it, and no match inside of a literal
comes before. -/
theorem messageOn?_isSome_iff (hp : p ∈ all) : (p.messageOn? code function).isSome = true ↔
    p.scope.holds function = true ∧ p.IsOn code ∧ ¬ p.pattern.IsHiddenIn code := by
  have hfound : (p.messageOn? code function).isSome = true ↔ p.scope.holds function = true ∧
      ∃ m, (p.pattern.find? code = some m ∧ Line.isInsideLiteral code m.start = false) ∧
        p.message.IsFinding m := by
    rw [messageOn?]
    cases p.scope.holds function with
    | false => simp
    | true =>
        cases p.pattern.find? code with
        | none => simp
        | some m => by_cases hinside : Line.isInsideLiteral code m.start <;>
            simp [hinside, PitfallMessage.text?_isSome_iff]
  rw [hfound, and_congr_right_iff]
  intro _
  constructor
  · rintro ⟨m, hm, hfinding⟩
    obtain ⟨-, hfirst⟩ := Pattern.exists_find?_outside_iff.mp ⟨m, hm⟩
    exact ⟨⟨m, (Pattern.find?_eq_some_iff.mp hm.1).1, hm.2, hfinding⟩, hfirst⟩
  · rintro ⟨⟨n, hn, houtside, hfinding⟩, hfirst⟩
    obtain ⟨m, hm⟩ := Pattern.exists_find?_outside_iff.mpr ⟨⟨n, hn, houtside⟩, hfirst⟩
    exact ⟨m, hm, isFinding_of_find? hp (Pattern.find?_eq_some_iff.mp hm.1).1 hn hfinding⟩

end Pitfall

namespace Script

/-! ## Waiting -/

section await

open Pattern

variable {pre post code : List Char}

/-- A line of code waits for something: outside of literals it has the word `await`, blanks, and at least
one more character. -/
def IsAwaiting (code : List Char) : Prop :=
  ∃ before gap c rest, code = before ++ ("await".toList ++ gap ++ c :: rest) ∧
    Quoting.read .outside before = .outside ∧ EndsOutsideWord before ∧
    gap ≠ [] ∧ (∀ x ∈ gap, isBlank x = true) ∧ c ≠ '\n'

theorem starts_awaitExpression_iff : awaitExpression.Starts pre post ↔ EndsOutsideWord pre ∧
    ∃ gap c rest, post = "await".toList ++ gap ++ c :: rest ∧ gap ≠ [] ∧
      (∀ x ∈ gap, isBlank x = true) ∧ c ≠ '\n' := by
  have hexpr : ∀ pre post, (group 1 (plus any)).Starts pre post ↔
      ∃ c rest, post = c :: rest ∧ c ≠ '\n' := by
    intro pre post
    simp only [Starts, accepts_group, accepts_plus fun _ _ _ _ => accepts_any]
    constructor
    · rintro ⟨w, rest, _, rfl, _, ⟨⟨hne, hall⟩, -⟩, -⟩
      obtain ⟨c, w, rfl⟩ := List.exists_cons_of_ne_nil hne
      exact ⟨c, w ++ rest, rfl, hall c List.mem_cons_self⟩
    · rintro ⟨c, rest, rfl, hc⟩
      exact ⟨[c], rest, _, rfl, [], ⟨⟨List.cons_ne_nil c [], by simpa using hc⟩, rfl⟩, rfl⟩
  have hedge : ∀ v, (Cursor.between pre ("await".toList ++ v)).isWordEdge = true ↔
      EndsOutsideWord pre := fun v => isWordEdge_between_cons (x := 'a') (by decide)
  rw [awaitExpression, starts_append_assoc, starts_append_assoc, starts_wordEdge_append,
    starts_append_of_left fun _ _ _ _ => accepts_lit]
  simp only [starts_append_of_left fun _ _ _ _ => accepts_blanks1, hexpr]
  constructor
  · rintro ⟨hstart, _, _, rfl, rfl, gap, _, rfl, ⟨hne, hblank⟩, c, rest, rfl, hc⟩
    exact ⟨(hedge _).mp hstart, gap, c, rest, by simp, hne, hblank, hc⟩
  · rintro ⟨hstart, gap, c, rest, rfl, hne, hblank, hc⟩
    rw [List.append_assoc]
    exact ⟨(hedge _).mpr hstart, _, _, rfl, rfl, gap, _, rfl, ⟨hne, hblank⟩, c, rest, rfl, hc⟩

theorem standsIn_awaitExpression_iff : awaitExpression.StandsIn code ↔ IsAwaiting code := by
  rw [standsIn_iff]
  constructor
  · rintro ⟨before, post, rfl, hstarts, houtside⟩
    obtain ⟨hedge, gap, c, rest, rfl, hgap, hblank, hc⟩ := starts_awaitExpression_iff.mp hstarts
    exact ⟨before, gap, c, rest, rfl, houtside, hedge, hgap, hblank, hc⟩
  · rintro ⟨before, gap, c, rest, rfl, houtside, hedge, hgap, hblank, hc⟩
    exact ⟨before, _, rfl, starts_awaitExpression_iff.mpr ⟨hedge, gap, c, rest, rfl, hgap, hblank, hc⟩,
      houtside⟩

/-- The lines that wait are told, unless a match inside of a literal comes first. -/
theorem exists_mem_awaits_iff {lines : List (List Char)} {functions : List Function} {line : Nat} :
    (∃ a ∈ awaits lines functions, a.line = line) ↔ ∃ raw, (raw, line) ∈ lines.zipIdx 1 ∧
      IsAwaiting (Line.code raw) ∧ ¬ awaitExpression.IsHiddenIn (Line.code raw) := by
  have hline : ∀ raw n, (∃ a ∈ awaitOf? functions raw n, a.line = line) ↔ n = line ∧
      IsAwaiting (Line.code raw) ∧ ¬ awaitExpression.IsHiddenIn (Line.code raw) := by
    intro raw n
    rw [← standsIn_awaitExpression_iff, ← exists_find?_outside_iff, awaitOf?]
    cases awaitExpression.find? (Line.code raw) with
    | none => simp
    | some m => by_cases hinside : Line.isInsideLiteral (Line.code raw) m.start <;> simp [hinside]
  constructor
  · rintro ⟨a, ha, hnumber⟩
    obtain ⟨⟨raw, n⟩, hraw, ha⟩ := List.mem_filterMap.mp ha
    obtain ⟨rfl, hawaiting⟩ := (hline raw n).mp ⟨a, ha, hnumber⟩
    exact ⟨raw, hraw, hawaiting⟩
  · rintro ⟨raw, hraw, hawaiting⟩
    obtain ⟨a, ha, hnumber⟩ := (hline raw line).mpr ⟨rfl, hawaiting⟩
    exact ⟨a, List.mem_filterMap.mpr ⟨(raw, line), hraw, ha⟩, hnumber⟩

end await

end Script

namespace Check

/-! ## The check -/

variable {c : Context}

/-- What is told of the lines of scripts. -/
structure TellsLines (c : Context) (findings : Findings) : Prop where
  /-- A pitfall that is looked for is reported on each line of code that has it and is no header of a
  function, unless the first match on the line starts inside a literal. -/
  pitfall : ∀ p ∈ activePitfalls c.options.strict, ∀ file line,
    (∃ i ∈ findings.issues, i.file = file ∧ i.line = line ∧ i.kind = p.id) ↔
      ∃ s ∈ c.scripts, s.path = file ∧ ∃ raw, (raw, line) ∈ s.source.lines.zipIdx 1 ∧
        isScanned (Line.code raw) = true ∧
        p.scope.holds ((Function.enclosing? s.facts.functions line).map (·.name)) = true ∧
        p.IsOn (Line.code raw) ∧ ¬ p.pattern.IsHiddenIn (Line.code raw)
  /-- A line that waits is listed, unless the first match on the line starts inside a literal. -/
  await : ∀ lines functions line, (∃ a ∈ Script.awaits lines functions, a.line = line) ↔
    ∃ raw, (raw, line) ∈ lines.zipIdx 1 ∧ Script.IsAwaiting (Line.code raw) ∧
      ¬ Script.awaitExpression.IsHiddenIn (Line.code raw)

/-- The pitfalls of a line are those that have words for it. -/
theorem exists_mem_pitfallsOfLine_iff {active : List Pitfall} {functions : List Function}
    {raw : List Char} {line : Nat} {p : Pitfall} :
    (∃ message, (p, message) ∈ pitfallsOfLine active functions raw line) ↔
      p ∈ active ∧ isScanned (Line.code raw) = true ∧
        (p.messageOn? (Line.code raw) ((Function.enclosing? functions line).map (·.name))).isSome
          = true := by
  rw [pitfallsOfLine]
  cases isScanned (Line.code raw) with
  | false => simp
  | true => simp [Option.isSome_iff_exists]

/-- The issues of the check are those of the pitfalls on lines. -/
theorem mem_issues_pitfalls_iff {i : Issue} :
    i ∈ (c.scripts.flatMap (pitfallsOf (activePitfalls c.options.strict))).map (·.2) ↔
      ∃ s ∈ c.scripts, ∃ raw line, (raw, line) ∈ s.source.lines.zipIdx 1 ∧ ∃ p message,
        (p, message) ∈ pitfallsOfLine (activePitfalls c.options.strict) s.facts.functions raw line ∧
          i = pitfallIssue s.path line p message := by
  simp only [List.mem_map, List.mem_flatMap, pitfallsOf]
  constructor
  · rintro ⟨_, ⟨s, hs, ⟨raw, line⟩, hraw, ⟨p, message⟩, hp, rfl⟩, rfl⟩
    exact ⟨s, hs, raw, line, hraw, p, message, hp, rfl⟩
  · rintro ⟨s, hs, raw, line, hraw, p, message, hp, rfl⟩
    exact ⟨_, ⟨s, hs, (raw, line), hraw, (p, message), hp, rfl⟩, rfl⟩

theorem mem_all_of_mem_activePitfalls {strict : Bool} {p : Pitfall}
    (h : p ∈ activePitfalls strict) : p ∈ Pitfall.all :=
  List.mem_of_mem_filter h

/-- **A line is judged by its first match**: it is told of a line that it has a pitfall, or waits, exactly
if it does and no match inside of a literal comes first. -/
theorem pitfalls_tellsLines (c : Context) :
    ∃ findings, pitfalls.run c = .finished findings ∧ TellsLines c findings := by
  refine ⟨_, rfl, ⟨fun p hp file line => ?_, fun _ _ _ => Script.exists_mem_awaits_iff⟩⟩
  have hall := mem_all_of_mem_activePitfalls hp
  simp only [← Pitfall.messageOn?_isSome_iff hall]
  constructor
  · rintro ⟨i, hi, rfl, rfl, hkind⟩
    obtain ⟨s, hs, raw, line, hraw, q, message, hq, rfl⟩ := mem_issues_pitfalls_iff.mp hi
    obtain ⟨hactive, hscanned, hmessage⟩ := exists_mem_pitfallsOfLine_iff.mp ⟨message, hq⟩
    obtain rfl := Pitfall.eq_of_id_eq (mem_all_of_mem_activePitfalls hactive) hall hkind
    exact ⟨s, hs, rfl, raw, hraw, hscanned, hmessage⟩
  · rintro ⟨s, hs, rfl, raw, hraw, hscanned, hmessage⟩
    obtain ⟨message, hp'⟩ := exists_mem_pitfallsOfLine_iff.mpr ⟨hp, hscanned, hmessage⟩
    exact ⟨_, mem_issues_pitfalls_iff.mpr ⟨s, hs, raw, line, hraw, p, message, hp', rfl⟩, rfl, rfl, rfl⟩

/-! ## A hidden pitfall -/

/-- A line with an outdated call behind a literal that names it. -/
def hiddenYield : List Char := "\tvar s = \"yield(\"; yield(s)".toList

/-- A project with the line. -/
def outdated : Project := .ofFiles {} [("a.gd", "func f():\n\tvar s = \"yield(\"; yield(s)\n")]

theorem isOn_hiddenYield {p : Pitfall} (hid : p.id = "yield") (hp : p ∈ Pitfall.all) :
    p.IsOn (Line.code hiddenYield) := by
  obtain rfl : p = { id := "yield", group := .deprecated, pattern := Pitfall.call "yield"
                     message := .always "yield() was replaced by await"
                     suggestion := some "await signal" } :=
    Pitfall.eq_of_id_eq hp List.mem_cons_self hid
  have hcode : Line.code hiddenYield = "\tvar s = \"yield(\"; ".toList ++ "yield(s)".toList := by
    decide +kernel
  have hstarts : (Pitfall.call "yield").Starts "\tvar s = \"yield(\"; ".toList "yield(s)".toList :=
    Pattern.matchAt?_isSome_iff.mp (by decide +kernel)
  obtain ⟨m, hm, houtside⟩ :=
    Pattern.standsIn_iff.mpr ⟨_, _, hcode, hstarts, by decide +kernel⟩
  exact ⟨m, hm, houtside, trivial⟩

/-- The call is not reported, and neither is an `await` behind a literal that has the word. -/
theorem pitfalls_hidden :
    (∃ p ∈ activePitfalls false, p.id = "yield" ∧ p.IsOn (Line.code hiddenYield)) ∧
      (∃ s ∈ outdated.scripts, (hiddenYield, 2) ∈ s.source.lines.zipIdx 1) ∧
      isScanned (Line.code hiddenYield) = true ∧
      (∃ findings, pitfalls.run ⟨outdated, {}⟩ = .finished findings ∧ findings.issues = []) ∧
      (let line := "x(\"await a\"); await b".toList
       Script.IsAwaiting (Line.code line) ∧ Script.awaits [line] [] = []) := by
  have hactive : ∃ p ∈ activePitfalls false, p.id = "yield" := by decide +kernel
  obtain ⟨p, hp, hid⟩ := hactive
  refine ⟨⟨p, hp, hid, isOn_hiddenYield hid (mem_all_of_mem_activePitfalls hp)⟩,
    by decide +kernel, by decide +kernel, ⟨_, rfl, by decide +kernel⟩, ?_, by decide +kernel⟩
  have hblank : isBlank ' ' = true := by decide
  exact ⟨"x(\"await a\"); ".toList, [' '], 'b', [], by decide +kernel, by decide +kernel,
    by decide +kernel, List.cons_ne_nil _ _, by simpa using hblank, by decide⟩

end Check

end GodotLint
