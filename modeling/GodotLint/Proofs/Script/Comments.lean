import GodotLint.Project.Basic
import GodotLint.Proofs.Line.Quoting
import GodotLint.Proofs.Ordering
import GodotLint.Proofs.Text.Lines
import GodotLint.Script.Facts

/-!
# Comments

The readers of a script look at the code of its lines and at the functions in whose bodies the lines lie.
What a reader does with one line, it does with the code of that line as well, so the facts are the same
for lines without comments (`Facts.ofCode_ofLines_map_code`). Only two things are read from comments: the
markers, and whether a function is documented.

Functions are told by indentation, which is that of the whole line. A line that holds code has the
indentation of its code (`Line.indent_code`), and every other line is skipped.

The index is built from the facts of the scripts and from the identifiers in their code, so it is the
same for scripts that differ in their comments only (`Project.index_assemble_congr`). In particular no
comment is needed for it: `Project.index_assemble_withoutComments` leaves all of them out.
-/

namespace GodotLint

open Text

namespace Line

theorem indent_append {a : List Char} (h : isAllBlank a = false) (rest : List Char) :
    indent (a ++ rest) = indent a := by
  induction a with
  | nil => cases h
  | cons c a ih =>
      by_cases hspace : c = ' '
      · subst hspace
        have ha : isAllBlank a = false := h
        simp [indent, ih ha]
      by_cases htab : c = '\t'
      · subst htab
        have ha : isAllBlank a = false := h
        simp [indent, ih ha]
      · simp [indent, hspace, htab]

/-- A line that holds code is as deep as its code. -/
theorem indent_code {line : List Char} (h : isBlankOrComment line = false) :
    indent (code line) = indent line := by
  obtain ⟨rest, hline, -⟩ := code_spec line
  have hindent := indent_append h rest
  rw [← hline] at hindent
  exact hindent.symm

theorem isBlankOrComment_code (line : List Char) :
    isBlankOrComment (code line) = isBlankOrComment line := by
  rw [isBlankOrComment, code_code, isBlankOrComment]

end Line

/-! ## Functions -/

namespace Function

theorem bodyLength_map_code (n : Nat) (lines : List (List Char)) :
    bodyLength n (lines.map Line.code) = bodyLength n lines := by
  induction lines with
  | nil => rfl
  | cons line rest ih =>
      rw [List.map_cons, bodyLength, bodyLength, ih, Line.isBlankOrComment_code]
      cases hcode : Line.isBlankOrComment line with
      | true => rfl
      | false => rw [Line.indent_code hcode]

theorem nesting_map_code (blocks : List Nat) (lines : List (List Char)) :
    nesting blocks (lines.map Line.code) = nesting blocks lines := by
  induction lines generalizing blocks with
  | nil => rfl
  | cons line rest ih =>
      rw [List.map_cons, nesting, nesting, Line.isBlankOrComment_code]
      cases hcode : Line.isBlankOrComment line with
      | true => exact ih blocks
      | false => simp only [Line.indent_code hcode, Line.code_code, ih]

theorem isStatement_code (line : List Char) : isStatement (Line.code line) = isStatement line := by
  rw [isStatement, Line.code_code, isStatement]

/-- A function less what its documentation tells. -/
def undocumented (f : Function) : Function := { f with hasDocComment := false }

theorem undocumented_ofHeader?_code (above above' : List (List Char)) (number : Nat)
    (line : List Char) (below : List (List Char)) :
    (ofHeader? above number (Line.code line) (below.map Line.code)).map undocumented =
      (ofHeader? above' number line below).map undocumented := by
  have hstatements : isStatement ∘ Line.code = isStatement := funext isStatement_code
  simp only [ofHeader?, Line.code_code, Option.map_map]
  congr 1
  funext m
  simp only [Function.comp_apply, undocumented, bodyLength_map_code, ← List.map_take,
    List.length_map, List.countP_map, hstatements, nesting_map_code]

theorem undocumented_scan_map_code (above above' : List (List Char)) (number : Nat)
    (lines : List (List Char)) :
    (scan above number (lines.map Line.code)).map undocumented =
      (scan above' number lines).map undocumented := by
  induction lines generalizing above above' number with
  | nil => rfl
  | cons line rest ih =>
      have hfirst := undocumented_ofHeader?_code above above' number line rest
      simp only [List.map_cons, scan, List.map_append, ← Option.toList_map, hfirst]
      rw [ih _ (line :: above')]

/-- Without comments, a script has the same functions, less their documentation. -/
theorem undocumented_ofLines_map_code (lines : List (List Char)) :
    (ofLines (lines.map Line.code)).map undocumented = (ofLines lines).map undocumented :=
  undocumented_scan_map_code ..

/-- The documentation of functions has no part in which of them contains a line. -/
theorem enclosing?_map_undocumented (functions : List Function) (line : Nat) :
    enclosing? (functions.map undocumented) line = (enclosing? functions line).map undocumented := by
  rw [enclosing?, List.filter_map, lastMax?_map]
  rfl

theorem enclosingBody?_map_undocumented (functions : List Function) (line : Nat) :
    enclosingBody? (functions.map undocumented) line = enclosingBody? functions line := by
  rw [enclosingBody?, enclosing?_map_undocumented, enclosingBody?]
  cases enclosing? functions line <;> rfl

end Function

/-! ## Readers -/

/-- A reader of lines and functions that looks at no comment. -/
def IgnoresComments {α : Type} (read : List (List Char) → List Function → α) : Prop :=
  ∀ lines functions,
    read (lines.map Line.code) (functions.map Function.undocumented) = read lines functions

namespace IgnoresComments

variable {α : Type} {read : List (List Char) → List Function → α}

/-- Such a reader may be given the codes of the lines. -/
theorem map_code (h : IgnoresComments read) (lines : List (List Char)) (functions : List Function) :
    read (lines.map Line.code) functions = read lines functions := by
  have hlines : (lines.map Line.code).map Line.code = lines.map Line.code := by
    simp [Function.comp_def, Line.code_code]
  rw [← h, hlines, h]

/-- What such a reader finds in a script without comments. -/
theorem apply (h : IgnoresComments read) (lines : List (List Char)) :
    read (lines.map Line.code) (Function.ofLines (lines.map Line.code)) =
      read lines (Function.ofLines lines) := by
  rw [h.map_code, ← h, Function.undocumented_ofLines_map_code, h]

/-- A reader that takes the lines one by one ignores comments if it ignores that of each line. -/
theorem of_flatMap {read : List Function → List Char → Nat → List α}
    (h : ∀ functions raw line,
      read (functions.map Function.undocumented) (Line.code raw) line = read functions raw line) :
    IgnoresComments fun lines functions =>
      (lines.zipIdx 1).flatMap fun (raw, line) => read functions raw line := by
  intro lines functions
  simp only [List.zipIdx_map, List.flatMap_map, Prod.map_fst, Prod.map_snd, h, id_eq]

theorem of_filterMap {read : List Function → List Char → Nat → Option α}
    (h : ∀ functions raw line,
      read (functions.map Function.undocumented) (Line.code raw) line = read functions raw line) :
    IgnoresComments fun lines functions =>
      (lines.zipIdx 1).filterMap fun (raw, line) => read functions raw line := by
  intro lines functions
  simp only [List.zipIdx_map, List.filterMap_map, Function.comp_def, Prod.map_fst, Prod.map_snd, h,
    id_eq]

end IgnoresComments

namespace Script

theorem declared_ignoresComments : IgnoresComments declared := by
  intro lines functions
  have hline : ∀ (s : Declared) (numbered : List Char × Nat),
      s.readLine (functions.map Function.undocumented) (Prod.map Line.code id numbered) =
        s.readLine functions numbered := by
    intro s numbered
    simp only [Declared.readLine, Prod.map_fst, Prod.map_snd, id_eq, Line.code_code,
      Function.enclosingBody?_map_undocumented]
  simp only [declared, List.zipIdx_map, List.foldl_map, hline, List.map_map]
  rfl

theorem loads_ignoresComments (base : Option Extends) :
    IgnoresComments fun lines functions => loads lines functions base := by
  have hlines : IgnoresComments fun lines functions =>
      (lines.zipIdx 1).flatMap fun (raw, line) => loadsOfLine functions raw line := by
    refine .of_flatMap fun functions raw line => ?_
    simp only [loadsOfLine, Line.code_code, Function.enclosingBody?_map_undocumented]
  intro lines functions
  simp only [loads, hlines lines functions]

theorem nodeRefs_ignoresComments : IgnoresComments nodeRefs := by
  refine .of_flatMap fun functions raw line => ?_
  simp only [nodeRefsOfLine, Line.code_code, Function.enclosingBody?_map_undocumented]

theorem awaits_ignoresComments : IgnoresComments awaits := by
  refine .of_filterMap fun functions raw line => ?_
  simp only [awaitOf?, Line.code_code, Function.enclosing?_map_undocumented, Option.map_map]
  rfl

theorem branchesBelow_map_code (headerIndent : Nat) (level : Option Nat) (line : Nat)
    (lines : List (List Char)) :
    branchesBelow headerIndent level line (lines.map Line.code) =
      branchesBelow headerIndent level line lines := by
  induction lines generalizing level line with
  | nil => rfl
  | cons raw rest ih => simp only [List.map_cons, branchesBelow, Line.code_code, ih]

theorem matchBlocks_ignoresComments : IgnoresComments matchBlocks := by
  intro lines functions
  unfold matchBlocks
  generalize 1 = line
  induction lines generalizing line with
  | nil => rfl
  | cons raw rest ih =>
      simp only [List.map_cons, matchBlocksFrom, Line.code_code, branchesBelow_map_code,
        Function.enclosing?_map_undocumented, Option.map_map, ih]
      rfl

theorem accesses_ignoresComments : IgnoresComments fun lines _ => accesses lines := by
  have hlines : IgnoresComments fun lines _ =>
      (lines.zipIdx 1).flatMap fun (raw, line) => accessesOfLine raw line :=
    .of_flatMap fun _ raw line => by simp only [accessesOfLine, Line.code_code]
  intro lines functions
  simp only [accesses, hlines lines functions]

theorem strings_ignoresComments : IgnoresComments fun lines _ => strings lines :=
  .of_flatMap fun _ raw line => by simp only [stringsOfLine, Line.code_code]

theorem numbers_ignoresComments : IgnoresComments numbers := by
  refine .of_flatMap fun functions raw line => ?_
  simp only [numbersOfLine, Line.code_code, Function.enclosingBody?_map_undocumented]

end Script

theorem Mention.ofLines_ignoresComments : IgnoresComments Mention.ofLines := by
  refine .of_flatMap fun functions raw line => ?_
  simp only [Mention.ofLine, Line.code_code, Function.enclosingBody?_map_undocumented]

/-! ## Facts -/

namespace Facts

/-- The facts less what is read from comments: the markers, and which functions are documented. -/
def ofCode (f : Facts) : Facts :=
  { f with functions := f.functions.map Function.undocumented, markers := [] }

/-- Lines without comments have the same facts, less what is read from comments. -/
theorem ofCode_ofLines_map_code (lines : List (List Char)) :
    (ofLines (lines.map Line.code)).ofCode = (ofLines lines).ofCode := by
  simp only [ofCode, ofLines, Function.undocumented_ofLines_map_code,
    Script.declared_ignoresComments.apply, (Script.loads_ignoresComments _).apply,
    Script.nodeRefs_ignoresComments.apply, Script.awaits_ignoresComments.apply,
    Script.matchBlocks_ignoresComments.apply, Script.accesses_ignoresComments.apply,
    Script.strings_ignoresComments.apply, Script.numbers_ignoresComments.apply,
    Mention.ofLines_ignoresComments.apply]

end Facts

/-! ## Scripts without comments -/

namespace Source

/-- The script with the code of its lines in place of the lines. Each line has a line end of two
characters, so that a carriage return at the end of its code stays. -/
def withoutComments (s : Source) : Source :=
  let text := s.lines.flatMap fun line => Line.code line ++ ['\r', '\n']
  { path := s.path, text, size := width text }

/-- No line of a text has a line feed. -/
theorem not_mem_lines (s : Source) : ∀ line ∈ s.lines, '\n' ∉ line := by
  have hending : IsLineEnd ['\r', '\n'] := .inr rfl
  exact (laid_lines hending s.text (by simp)).no_feed

/-- The lines of the script without comments. -/
theorem lines_withoutComments (s : Source) : s.withoutComments.lines = s.lines.map Line.code := by
  have hfeed : ∀ line ∈ s.lines.map fun line => Line.code line ++ ['\r'], '\n' ∉ line := by
    intro line hline
    obtain ⟨raw, hraw, rfl⟩ := List.mem_map.mp hline
    obtain ⟨rest, hcode, -⟩ := Line.code_spec raw
    have hnot := not_mem_lines s raw hraw
    rw [hcode] at hnot
    simp only [List.mem_append, not_or] at hnot ⊢
    exact ⟨hnot.1, by decide⟩
  have hlines := lines_flatMap_feed hfeed
  simpa [withoutComments, Source.lines, List.flatMap_map, Function.comp_def] using hlines

end Source

namespace Script

/-- The script with its comments and what is read from them left out. -/
def bare (s : Script) : Script := { source := s.source.withoutComments, facts := s.facts.ofCode }

@[simp] theorem path_bare (s : Script) : s.bare.path = s.path := rfl

/-- Scripts of one path that differ in their comments only are the same without them. -/
theorem bare_ofSource_congr {s t : Source} (hpath : s.path = t.path)
    (hlines : s.lines.map Line.code = t.lines.map Line.code) :
    (ofSource s).bare = (ofSource t).bare := by
  have htext : (s.lines.flatMap fun line => Line.code line ++ ['\r', '\n']) =
      t.lines.flatMap fun line => Line.code line ++ ['\r', '\n'] := by
    have := congrArg (List.flatMap (· ++ ['\r', '\n'])) hlines
    simpa [List.flatMap_map] using this
  have hfacts : (Facts.ofLines s.lines).ofCode = (Facts.ofLines t.lines).ofCode := by
    rw [← Facts.ofCode_ofLines_map_code s.lines, hlines, Facts.ofCode_ofLines_map_code]
  simp only [bare, ofSource, Source.withoutComments, hpath, htext, hfacts]

end Script

/-! ## The index -/

namespace Index

open Script

variable (scripts : List Script)

/-- What is named in the facts of scripts is named in their code. -/
theorem siteTable_bare (named : Facts → List (String × Nat))
    (h : ∀ f : Facts, named f.ofCode = named f) :
    siteTable (scripts.map bare) named = siteTable scripts named := by
  simp only [siteTable, List.flatMap_map, bare, h]
  rfl

theorem classEntries_bare : classEntries (scripts.map bare) = classEntries scripts := by
  have hentry : ∀ s : Script, classEntry? s.bare = classEntry? s := by
    intro s
    simp only [bare, classEntry?, Facts.ofCode, List.filter_map, List.map_map]
    rfl
  simp only [classEntries, List.filterMap_map, Function.comp_def, hentry]

theorem identifierTable_bare : identifierTable (scripts.map bare) = identifierTable scripts := by
  have hidentifiers : ∀ s : Script, identifiersOf s.bare.source = identifiersOf s.source := by
    intro s
    simp only [identifiersOf, bare, Source.lines_withoutComments, List.flatMap_map, Line.code_code]
  simp only [identifierTable, List.foldl_map, hidentifiers, path_bare]

theorem autoloadEntries_bare (scenes : List Scene) (files : List String) (settings : Settings) :
    autoloadEntries (scripts.map bare) scenes files settings =
      autoloadEntries scripts scenes files settings := by
  refine List.map_congr_left fun decl _ => ?_
  simp only [autoloadEntry, List.partition_eq_filter_filter, List.filter_map, List.flatMap_map]
  rfl

theorem signalEntries_bare (scenes : List Scene) :
    signalEntries (scripts.map bare) scenes = signalEntries scripts scenes := by
  simp only [signalEntries, mentionSites, connectSites, List.flatMap_map]
  rfl

theorem resolveAll_bare (t : Tables) : resolveAll t (scripts.map bare) = resolveAll t scripts := by
  simp only [resolveAll, List.flatMap_map]
  rfl

/-- The index of scripts is the one of the scripts without comments. -/
theorem build_bare (scenes : List Scene) (data : List DataFile) (settings : Option Settings)
    (files : List String) :
    build (scripts.map bare) scenes data settings files =
      build scripts scenes data settings files := by
  have hpaths : (scripts.map bare).map (·.path) = scripts.map (·.path) := by
    simp only [List.map_map]
    rfl
  have hautoloads : settings.elim [] (autoloadEntries (scripts.map bare) scenes files) =
      settings.elim [] (autoloadEntries scripts scenes files) := by
    cases settings with
    | none => rfl
    | some settings => exact autoloadEntries_bare scripts scenes files settings
  have himports : ∀ (files : List String) (classes : SortedMap ClassEntry),
      (scripts.map bare).foldl (addImports (scripts.map (·.path)) files classes) .empty =
        scripts.foldl (addImports (scripts.map (·.path)) files classes) .empty := by
    intro files classes
    rw [List.foldl_map]
    rfl
  have hbroken : (scripts.map bare).flatMap (brokenLoadsOf (scripts.map (·.path)) files) =
      scripts.flatMap (brokenLoadsOf (scripts.map (·.path)) files) := by
    rw [List.flatMap_map]
    rfl
  have hfunctions : siteTable (scripts.map bare) (fun f => f.functions.map fun d => (d.name, d.line)) =
      siteTable scripts fun f => f.functions.map fun d => (d.name, d.line) :=
    siteTable_bare scripts _ fun f => by simp only [Facts.ofCode, List.map_map]; rfl
  have hkeys := siteTable_bare scripts (fun f => f.accesses.map fun a => (a.key, a.line))
    fun _ => rfl
  have hnumbers := siteTable_bare scripts (fun f => f.numbers.map fun n => (n.value, n.line))
    fun _ => rfl
  have hstrings : (scripts.map bare).flatMap (fun s => s.facts.strings.map (·.value)) =
      scripts.flatMap fun s => s.facts.strings.map (·.value) := by
    rw [List.flatMap_map]
    rfl
  simp only [build, classEntries_bare, hpaths, hautoloads, himports, hbroken, hfunctions, hkeys,
    hnumbers, identifierTable_bare, hstrings, signalEntries_bare, resolveAll_bare]

end Index

/-! ## Projects -/

namespace Project

variable (root : String) (config : Config) (documents : List Document) (files : List String)
  (faults : List FileFault)

/-- Scripts that differ in their comments only have the same index. -/
theorem index_assemble_congr {sources sources' : List Source}
    (h : sources.map (fun s => (s.path, s.lines.map Line.code)) =
      sources'.map fun s => (s.path, s.lines.map Line.code)) :
    (assemble root config sources documents files faults).index =
      (assemble root config sources' documents files faults).index := by
  have hbare : (sources.map Script.ofSource).map Script.bare =
      (sources'.map Script.ofSource).map Script.bare := by
    simp only [List.map_map]
    induction sources generalizing sources' with
    | nil =>
        rw [List.map_nil, eq_comm, List.map_eq_nil_iff] at h
        rw [h]
    | cons s sources ih =>
        cases sources' with
        | nil => simp at h
        | cons t sources' =>
            simp only [List.map_cons, List.cons.injEq, Prod.mk.injEq] at h ⊢
            exact ⟨Script.bare_ofSource_congr h.1.1 h.1.2, ih h.2⟩
  simp only [assemble]
  rw [← Index.build_bare, hbare, Index.build_bare]

/-- **Comments are inert**: with the code of each line in place of the line, every script has the same
facts, apart from those that tell of comments, and the project has the same index. -/
theorem index_assemble_withoutComments (sources : List Source) :
    (∀ s ∈ sources, s.withoutComments.path = s.path ∧
      s.withoutComments.lines = s.lines.map Line.code ∧
      (Script.ofSource s.withoutComments).facts.ofCode = (Script.ofSource s).facts.ofCode) ∧
    (assemble root config (sources.map Source.withoutComments) documents files faults).index =
      (assemble root config sources documents files faults).index := by
  refine ⟨fun s _ => ⟨rfl, s.lines_withoutComments, ?_⟩, ?_⟩
  · rw [Script.ofSource, Source.lines_withoutComments, Facts.ofCode_ofLines_map_code]
    rfl
  · refine index_assemble_congr root config documents files faults ?_
    simp only [List.map_map]
    refine List.map_congr_left fun s _ => ?_
    simp only [Function.comp_apply, Source.lines_withoutComments, List.map_map]
    simp only [Function.comp_def, Line.code_code]
    rfl

end Project

end GodotLint
