import GodotLint.Check.Registry
import GodotLint.Proofs.Script.Comments
import GodotLint.Proofs.Ordering
import GodotLint.Proofs.Text.Lines

/-!
# Checks without comments

A check that is given a project without its comments finds what it finds with them, if it reads the
code of lines, or facts and tables that come from the code (`IsCommentBlind`). The checks of markers
and of comments are made to read comments. The check of exported variables reads whole lines, to see
whether a value is inferred, so a comment may hide that a type is missing (`exports_run_bare_iff`).
-/

namespace GodotLint

open Text

/-! ## Projects without comments -/

/-- The project with its scripts without comments. -/
def Project.bare (p : Project) : Project := { p with scripts := p.scripts.map Script.bare }

/-- What a check looks at, with the scripts without comments. -/
def Context.bare (c : Context) : Context := { c with project := c.project.bare }

theorem Context.scripts_bare (c : Context) : c.bare.scripts = c.scripts.map Script.bare := rfl

/-- A line of a script without comments is the code of the line. -/
theorem Source.line_withoutComments (s : Source) (number : Nat) :
    s.withoutComments.line number = Line.code (s.line number) := by
  unfold line
  rw [s.lines_withoutComments]
  split_ifs with hzero
  · rfl
  · exact List.getD_map (d := []) ..

theorem Script.lines_bare (s : Script) : s.bare.source.lines = s.source.lines.map Line.code :=
  s.source.lines_withoutComments

/-- A reader of lines and functions that looks at no comment reads the same from a script without
them. -/
theorem IgnoresComments.bare {α : Type} {read : List (List Char) → List Function → α}
    (h : IgnoresComments read) (s : Script) :
    read s.bare.source.lines s.bare.facts.functions = read s.source.lines s.facts.functions := by
  rw [s.lines_bare]
  exact h s.source.lines s.facts.functions

namespace Check

/-- A check that looks at no comment. -/
def IsCommentBlind (check : Check) : Prop := ∀ c : Context, check.run c.bare = check.run c

/-! ## Checks of tables and facts -/

theorem isCommentBlind_of_tables :
    ∀ check ∈ [cyclicImports, autoloads, signals, inputActions, jsonRefs, sceneHealth, dictKeys],
      check.IsCommentBlind := by
  intro check hcheck c
  fin_cases hcheck <;> rfl

theorem naming_isCommentBlind : naming.IsCommentBlind := by
  intro c
  simp only [naming, styledDeclarations, Context.scripts_bare, List.flatMap_map]
  rfl

theorem coupling_isCommentBlind : coupling.IsCommentBlind := by
  intro c
  simp only [coupling, Context.scripts_bare, List.map_map]
  rfl

theorem dictAccess_isCommentBlind : dictAccess.IsCommentBlind := by
  intro c
  simp only [dictAccess, Context.scripts_bare, List.flatMap_map]
  rfl

theorem matchStatements_isCommentBlind : matchStatements.IsCommentBlind := by
  intro c
  simp only [matchStatements, Context.scripts_bare, List.flatMap_map]
  rfl

theorem awaitPatterns_isCommentBlind : awaitPatterns.IsCommentBlind := by
  intro c
  simp only [awaitPatterns, Context.scripts_bare, List.flatMap_map]
  rfl

theorem nodeRefs_isCommentBlind : nodeRefs.IsCommentBlind := by
  intro c
  simp only [nodeRefs, Context.scripts_bare, List.flatMap_map]
  rfl

theorem magicNumbers_isCommentBlind : magicNumbers.IsCommentBlind := by
  intro c
  simp only [magicNumbers, Context.scripts_bare, List.flatMap_map]
  rfl

/-- A chain of bases goes through the same scripts. -/
theorem follow_bare (p : Project) (count : Nat) (visited : List String) (file : String)
    (base : Option Extends) :
    Chain.follow p.bare count visited file base = Chain.follow p count visited file base := by
  have hscript : ∀ file, (p.bare.script? file).bind (·.facts.base) =
      (p.script? file).bind (·.facts.base) := by
    intro file
    simp only [Project.script?, Project.bare, ← List.map_reverse, List.find?_map, Option.bind_map]
    rfl
  induction count generalizing visited file base with
  | zero => rfl
  | succ count ih =>
      cases base with
      | none => rfl
      | some base =>
          simp only [Chain.follow, ih, hscript]
          rfl

theorem inheritance_isCommentBlind : inheritance.IsCommentBlind := by
  intro c
  have hproject : c.bare.project = c.project.bare := rfl
  have hchain : ∀ s : Script,
      Chain.ofScript c.project.bare s.bare = Chain.ofScript c.project s := by
    intro s
    have hlength : c.project.bare.scripts.length = c.project.scripts.length := List.length_map ..
    simp only [Chain.ofScript, follow_bare, hlength]
    rfl
  simp only [inheritance, Context.scripts_bare, List.filterMap_map, Function.comp_def, hproject,
    hchain]
  rfl

/-! ## Checks of functions

Of a function, only whether it is documented is read from comments. -/

theorem classNames_isCommentBlind : classNames.IsCommentBlind := by
  intro c
  have hissue : ∀ s : Script, classNameIssue? c.options.strict s.bare =
      classNameIssue? c.options.strict s := by
    intro s
    have hstatic : s.bare.facts.hasStaticFunctions = s.facts.hasStaticFunctions := by
      simp only [Facts.hasStaticFunctions, Script.bare, Facts.ofCode, List.any_map]
      rfl
    simp only [classNameIssue?, hstatic]
    rfl
  have hissues : c.bare.scripts.filterMap (classNameIssue? c.bare.options.strict) =
      c.scripts.filterMap (classNameIssue? c.options.strict) := by
    rw [Context.scripts_bare, List.filterMap_map]
    exact List.filterMap_congr fun s _ => hissue s
  have hnamed : c.bare.scripts.countP (·.facts.className.isSome) =
      c.scripts.countP (·.facts.className.isSome) := by
    rw [Context.scripts_bare, List.countP_map]
    rfl
  simp only [classNames, countOf, hissues, hnamed]
  rfl

theorem methodVisibility_isCommentBlind : methodVisibility.IsCommentBlind := by
  intro c
  have hvisible : visibleFunctions c.bare =
      (visibleFunctions c).map fun x => (x.1, x.2.1.undocumented, x.2.2) := by
    simp only [visibleFunctions, Context.scripts_bare, List.filter_map, List.flatMap_map, Script.bare,
      Facts.ofCode, List.map_map, List.map_flatMap]
    rfl
  simp only [methodVisibility, hvisible, List.filterMap_map, countOf, List.countP_map]
  rfl

theorem deadCode_isCommentBlind : deadCode.IsCommentBlind := by
  intro c
  simp only [deadCode, Context.scripts_bare, List.flatMap_map, Script.bare, Facts.ofCode,
    List.filterMap_map]
  rfl

/-- A function of a file less what its documentation tells. -/
def undocumentedIn (x : String × Function) : String × Function := (x.1, x.2.undocumented)

/-- The longest of some functions is found by their lengths alone. -/
theorem longest?_map_undocumentedIn (functions : List (String × Function)) :
    longest? (functions.map undocumentedIn) = (longest? functions).map undocumentedIn := by
  have hfold : ∀ best : Option (String × Function),
      (functions.map undocumentedIn).foldl (fun best x =>
        if ((best.map (·.2.bodyLines)).getD 0) < x.2.bodyLines then some x else best)
        (best.map undocumentedIn) =
      (functions.foldl (fun best x =>
        if ((best.map (·.2.bodyLines)).getD 0) < x.2.bodyLines then some x else best) best).map
          undocumentedIn := by
    induction functions with
    | nil => exact fun _ => rfl
    | cons x functions ih =>
        intro best
        have hlength : ∀ x : String × Function, (undocumentedIn x).2.bodyLines = x.2.bodyLines :=
          fun _ => rfl
        rw [List.map_cons, List.foldl_cons, List.foldl_cons, ← ih]
        cases best <;> simp only [Option.map_some, Option.map_none, hlength] <;> split_ifs <;> rfl
  exact hfold none

theorem complexity_isCommentBlind : complexity.IsCommentBlind := by
  intro c
  have hfunctions : functionsOf c.bare = (functionsOf c).map undocumentedIn := by
    simp only [functionsOf, Context.scripts_bare, List.flatMap_map, Script.bare, Facts.ofCode,
      List.map_map, List.map_flatMap]
    rfl
  have hsize : ∀ (limits : ComplexityLimits) (s : Script),
      fileSizeIssue? limits s.bare = fileSizeIssue? limits s := by
    intro limits s
    simp only [fileSizeIssue?, s.lines_bare, List.length_map]
    rfl
  have hlongest := longest?_map_undocumentedIn (functionsOf c)
  simp only [complexity, hfunctions, hlongest, Context.scripts_bare, List.flatMap_map, hsize]
  simp only [Script.bare, Facts.ofCode, List.flatMap_map, sumOf_map, List.length_map]
  cases longest? (functionsOf c) <;> rfl

/-! ## Checks of lines -/

theorem pitfallsOf_bare (active : List Pitfall) (s : Script) :
    pitfallsOf active s.bare = pitfallsOf active s := by
  have hline : ∀ functions raw line,
      pitfallsOfLine active (functions.map Function.undocumented) (Line.code raw) line =
        pitfallsOfLine active functions raw line := by
    intro functions raw line
    simp only [pitfallsOfLine, Line.code_code, Function.enclosing?_map_undocumented, Option.map_map]
    rfl
  have hread := @IgnoresComments.of_flatMap _ (fun functions raw line =>
    (pitfallsOfLine active functions raw line).map fun x =>
      (x.1, pitfallIssue s.path line x.1 x.2)) fun functions raw line => by rw [hline]
  exact hread.bare s

theorem pitfalls_isCommentBlind : pitfalls.IsCommentBlind := by
  intro c
  simp only [pitfalls, Context.scripts_bare, List.flatMap_map, pitfallsOf_bare]
  rfl

theorem mutationsOf_bare (shape : Pattern) (s : Script) :
    mutationsOf shape s.bare = mutationsOf shape s := by
  have hread := @IgnoresComments.of_flatMap _ (fun _ raw line =>
    let code := Line.code raw
    if !contains "state.".toList code then []
    else
      (shape.findAll code).filterMap fun m =>
        if Line.isInsideLiteral code m.start then none else some (line, m))
    fun _ raw line => by simp only [Line.code_code]
  exact hread.bare s

theorem stateMutation_isCommentBlind : stateMutation.IsCommentBlind := by
  intro c
  have hwrites : ∀ shape,
      (c.bare.scripts.flatMap fun s => (mutationsOf shape s).map fun w => (s, w)) =
      (c.scripts.flatMap fun s => (mutationsOf shape s).map fun w => (s, w)).map
        fun x => (x.1.bare, x.2) := by
    intro shape
    simp only [Context.scripts_bare, List.flatMap_map, mutationsOf_bare, List.map_flatMap,
      List.map_map]
    rfl
  simp only [stateMutation, hwrites, List.filter_map, List.map_map, List.length_map]
  rfl

theorem printStatements_isCommentBlind : printStatements.IsCommentBlind := by
  intro c
  have houtput : ∀ s : Script,
      (s.bare.source.lines.zipIdx 1).flatMap (fun x =>
        outputOfLine c.options.strict s.path x.1 x.2) =
      (s.source.lines.zipIdx 1).flatMap fun x =>
        outputOfLine c.options.strict s.path x.1 x.2 := by
    intro s
    have hread := @IgnoresComments.of_flatMap _ (fun _ raw line =>
      outputOfLine c.options.strict s.path raw line)
      fun _ raw line => by simp only [outputOfLine, Line.code_code]
    exact hread.bare s
  simp only [printStatements, Context.scripts_bare, List.partition_eq_filter_filter, List.filter_map,
    List.flatMap_map, List.length_map]
  have hpath : ∀ s : Script, s.bare.path = s.path := fun _ => rfl
  have hstrict : c.bare.options.strict = c.options.strict := rfl
  simp only [hpath, hstrict, houtput]
  rfl

theorem codeLines_bare (s : Script) : Tween.codeLines s.bare = Tween.codeLines s := by
  simp only [Tween.codeLines, s.lines_bare, List.zipIdx_map, List.map_map]
  refine List.map_congr_left fun numbered _ => ?_
  simp only [Function.comp_apply, Prod.map_fst, Prod.map_snd, id_eq, Line.code_code, Script.bare,
    Facts.ofCode, Function.enclosing?_map_undocumented, Option.map_map]
  rfl

theorem tweens_isCommentBlind : tweens.IsCommentBlind := by
  intro c
  have hissues : ∀ s : Script, Tween.issues s.bare = Tween.issues s := by
    intro s
    simp only [Tween.issues, codeLines_bare]
    rfl
  have hcreations : ∀ s : Script, Tween.creations s.bare = Tween.creations s := by
    intro s
    simp only [Tween.creations, codeLines_bare]
  simp only [tweens, Context.scripts_bare, List.flatMap_map, hissues, sumOf_map, Function.comp_def,
    hcreations]

theorem unusedPreloads_map_code (lines : List (List Char)) :
    Script.unusedPreloads (lines.map Line.code) = Script.unusedPreloads lines := by
  have hname : ∀ line, Script.preloadedName? (Line.code line) = Script.preloadedName? line := by
    intro line
    simp only [Script.preloadedName?, Line.code_code]
  have hused : ∀ index name, Script.isUsedElsewhere (lines.map Line.code) index name =
      Script.isUsedElsewhere lines index name := by
    intro index name
    simp only [Script.isUsedElsewhere, List.zipIdx_map, List.any_map, Function.comp_def, Prod.map_fst,
      Prod.map_snd, id_eq, Script.mentionsWord, Line.code_code]
  simp only [Script.unusedPreloads, hused, List.zipIdx_map, List.filterMap_map, Function.comp_def,
    Prod.map_fst, Prod.map_snd, id_eq, hname]

theorem preloadPatterns_isCommentBlind : preloadPatterns.IsCommentBlind := by
  intro c
  simp only [preloadPatterns, Context.scripts_bare, List.flatMap_map, Script.lines_bare,
    unusedPreloads_map_code]
  rfl

theorem runsFrom_bare (functions : List Function) (run : List (List Char)) (number : Nat)
    (lines : List (List Char)) :
    runsFrom (functions.map Function.undocumented) run number (lines.map Line.code) =
      runsFrom functions run number lines := by
  have hinside : ∀ number, (functions.map Function.undocumented).any (·.contains number) =
      functions.any (·.contains number) := by
    intro number
    rw [List.any_map]
    rfl
  induction lines generalizing run number with
  | nil => rfl
  | cons raw rest ih => simp only [List.map_cons, runsFrom, Line.code_code, hinside, ih]

/-- The blocks of a script are made of its code. -/
theorem ofScript_bare (minLines : Nat) (s : Script) :
    Block.ofScript minLines s.bare = Block.ofScript minLines s := by
  have hnormal : Repetition.normalLine ∘ Line.code = Repetition.normalLine := by
    funext line
    simp only [Function.comp_apply, Repetition.normalLine, Line.code_code]
  have hfunctions : s.bare.facts.functions.map (Block.ofFunction s.bare) =
      s.facts.functions.map (Block.ofFunction s) := by
    simp only [Script.bare, Facts.ofCode, List.map_map]
    refine List.map_congr_left fun f _ => ?_
    have hlines : s.source.withoutComments.lines = s.source.lines.map Line.code := s.lines_bare
    simp only [Function.comp_apply, Block.ofFunction, hlines, ← List.map_drop, ← List.map_take,
      List.map_map, hnormal]
    rfl
  have hruns : (topLevelRuns s.bare.source.lines s.bare.facts.functions).map (Block.ofRun s.bare) =
      (topLevelRuns s.source.lines s.facts.functions).map (Block.ofRun s) := by
    rw [s.lines_bare, topLevelRuns]
    exact congrArg _ (runsFrom_bare ..)
  rw [Block.ofScript, hfunctions, hruns, Block.ofScript]

theorem duplicates_isCommentBlind : duplicates.IsCommentBlind := by
  intro c
  simp only [duplicates, Context.scripts_bare, List.flatMap_map, ofScript_bare]
  rfl

/-! ## Exported variables -/

section exported

variable {file : String} {line : List Char} {d : Declaration}

/-- A comment hides that an exported variable has no type: the line has the sign of an inferred
type, the code of the line has not. -/
structure CommentHidesType (line : List Char) (d : Declaration) : Prop where
  exported : d.exportAnnotation?.isSome = true
  untyped : d.typeHint = none
  in_line : contains ":=".toList line = true
  not_in_code : contains ":=".toList (Line.code line) = false

theorem commentHidesType_iff : CommentHidesType line d ↔ d.exportAnnotation?.isSome = true ∧
    d.typeHint = none ∧ contains ":=".toList line = true ∧
      contains ":=".toList (Line.code line) = false :=
  ⟨fun ⟨h₁, h₂, h₃, h₄⟩ => ⟨h₁, h₂, h₃, h₄⟩, fun ⟨h₁, h₂, h₃, h₄⟩ => ⟨h₁, h₂, h₃, h₄⟩⟩

instance (line : List Char) (d : Declaration) : Decidable (CommentHidesType line d) :=
  decidable_of_iff _ commentHidesType_iff.symm

/-- Code hides nothing. -/
theorem not_commentHidesType_code : ¬ CommentHidesType (Line.code line) d := by
  intro h
  have hcode := h.not_in_code
  rw [Line.code_code, h.in_line] at hcode
  cases hcode

/-- What stands in the code of a line stands in the line. -/
theorem contains_of_contains_code {p : List Char} (h : contains p (Line.code line) = true) :
    contains p line = true := by
  obtain ⟨rest, hline, -⟩ := Line.code_spec line
  rw [contains_iff] at h ⊢
  rw [hline]
  exact h.trans (List.prefix_append _ _).isInfix

/-- Without its comment, a line gives the same issues and possibly one more. -/
theorem exportIssues_sublist_code (file : String) (line : List Char) (d : Declaration) :
    (exportIssues file line d).Sublist (exportIssues file (Line.code line) d) := by
  unfold exportIssues
  cases d.exportAnnotation? with
  | none => exact List.Sublist.refl _
  | some annotation =>
      refine List.Sublist.append ?_ (List.Sublist.refl _)
      unfold untypedExportIssue?
      cases hcode : contains ":=".toList (Line.code line) with
      | true => rw [contains_of_contains_code hcode]
      | false => cases contains ":=".toList line <;> cases d.typeHint <;> simp

/-- A comment takes an issue away exactly if it hides that a type is missing. -/
theorem exportIssues_code_eq_iff : exportIssues file line d = exportIssues file (Line.code line) d ↔
    ¬ CommentHidesType line d := by
  rw [commentHidesType_iff, exportIssues, exportIssues]
  cases d.exportAnnotation? with
  | none => simp
  | some annotation =>
      rw [List.append_cancel_right_eq]
      unfold untypedExportIssue?
      cases hcode : contains ":=".toList (Line.code line) with
      | true =>
          rw [contains_of_contains_code hcode]
          simp
      | false => cases contains ":=".toList line <;> cases d.typeHint <;> simp

end exported

/-- Lists that are put together from parts of others are equal to them only if each part is. -/
theorem flatMap_eq_iff_of_sublist {α β : Type} {f g : α → List β} {l : List α}
    (h : ∀ x ∈ l, (f x).Sublist (g x)) : l.flatMap f = l.flatMap g ↔ ∀ x ∈ l, f x = g x := by
  induction l with
  | nil => simp
  | cons x l ih =>
      obtain ⟨hx, hl⟩ := List.forall_mem_cons.mp h
      have hrest : (l.flatMap f).Sublist (l.flatMap g) := .flatMap_right l hl
      rw [List.flatMap_cons, List.flatMap_cons, List.forall_mem_cons, ← ih hl]
      constructor
      · intro heq
        have hlength := congrArg List.length heq
        rw [List.length_append, List.length_append] at hlength
        have hfirst := hx.length_le
        have hothers := hrest.length_le
        exact ⟨hx.eq_of_length (by omega), hrest.eq_of_length (by omega)⟩
      · rintro ⟨hfirst, hothers⟩
        rw [hfirst, hothers]

/-- **Exported variables are judged by their whole lines**: leaving out the comments changes what is
found exactly if a comment hides that a type is missing. -/
theorem exports_run_bare_iff (c : Context) : exports.run c.bare = exports.run c ↔
    ∀ s ∈ c.scripts, ∀ d ∈ s.facts.declarationsOf .export,
      ¬ CommentHidesType (s.source.line d.line) d := by
  let found := c.scripts.flatMap fun s => (s.facts.declarationsOf .export).map fun d => (s, d)
  let report (issues : List Issue) : Outcome := .finished
    { summary := .ofList [("exports", .nat found.length), ("issues", .nat issues.length),
        ("by_type", kindCounts issues)]
      issues }
  have hrun : exports.run c =
      report (found.flatMap fun x => exportIssues x.1.path (x.1.source.line x.2.line) x.2) := rfl
  have hrun_bare : exports.run c.bare =
      report (found.flatMap fun x =>
        exportIssues x.1.path (Line.code (x.1.source.line x.2.line)) x.2) := by
    have hfound :
        (c.bare.scripts.flatMap fun s => (s.facts.declarationsOf .export).map fun d => (s, d)) =
        found.map fun x => (x.1.bare, x.2) := by
      simp only [found, Context.scripts_bare, List.flatMap_map, List.map_flatMap, List.map_map]
      rfl
    have hline : ∀ (s : Script) number,
        s.bare.source.line number = Line.code (s.source.line number) :=
      fun s => s.source.line_withoutComments
    simp only [exports, hfound, List.flatMap_map, hline, List.length_map]
    rfl
  have hreport : ∀ issues issues', report issues = report issues' ↔ issues = issues' := by
    intro issues issues'
    refine ⟨fun h => ?_, fun h => h ▸ rfl⟩
    rw [Outcome.finished.injEq] at h
    exact congrArg Findings.issues h
  rw [hrun, hrun_bare, hreport, eq_comm,
    flatMap_eq_iff_of_sublist fun x _ => exportIssues_sublist_code ..]
  simp only [exportIssues_code_eq_iff, found, List.mem_flatMap, List.mem_map]
  constructor
  · intro h s hs d hd
    exact h (s, d) ⟨s, hs, d, hd, rfl⟩
  · rintro h _ ⟨s, hs, d, hd, rfl⟩
    exact h s hs d hd

end Check

end GodotLint
