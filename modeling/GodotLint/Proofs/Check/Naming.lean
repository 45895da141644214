import GodotLint.Check.Names
import GodotLint.Proofs.Naming.Styles
import GodotLint.Proofs.Project.Loaded
import GodotLint.Proofs.Script.Names
import GodotLint.Proofs.Text.CharTable

/-!
# Suggested names

The name that is suggested for a badly named member is meant to be put in its place. It is then
accepted exactly if it is ASCII or an exception (`mends_suggestedName_iff`). The name of a member is
an ASCII identifier, except that a value of an enum may be named by letters of every script, so the
suggestion is good for everything else (`naming_suggestion_mends`), and a value that is named by a
letter without a case is suggested its own name (`not_mends_naming_suggestion_sun`).
-/

namespace GodotLint.Check

open Naming Text

/-! ## Styles -/

namespace Style

variable {style : Style} {name : List Char}

/-- A name in a style is made of ASCII letters, digits and underscores. -/
theorem isIdentChar_of_holds (h : style.holds name = true) :
    ∀ c ∈ name, isIdentChar c = true := by
  cases style with
  | snake => exact isIdentChar_of_isSnakeCase h
  | screaming => exact isIdentChar_of_isScreamingCase h
  | pascal => exact isIdentChar_of_isPascalCase h

/-- **A name that is put into a style is in it exactly if it then is ASCII.** -/
theorem holds_apply_iff :
    style.holds (style.apply name) = true ↔ ∀ c ∈ style.apply name, isAscii c = true := by
  cases style with
  | snake => exact isSnakeCase_toSnakeCase_iff
  | screaming => exact isScreamingCase_toScreamingCase_iff
  | pascal => exact isPascalCase_toPascalCase_iff

/-- No style leaves ASCII. -/
theorem isAscii_of_mem_apply (h : ∀ c ∈ name, isAscii c = true) :
    ∀ c ∈ style.apply name, isAscii c = true := by
  cases style with
  | snake => exact isAscii_of_mem_toSnakeCase h
  | screaming => exact isAscii_of_mem_toScreamingCase h
  | pascal => exact isAscii_of_mem_toPascalCase h

end Style

/-! ## Accepted names -/

section accepted

variable {exceptions : List String} {d : Declaration}

theorem isAscii_of_mem_shortNames :
    ∀ name ∈ shortNames ++ lifecycleHooks, ∀ c ∈ name.toList, isAscii c = true := by
  have hall : (shortNames ++ lifecycleHooks).all (·.toList.all isAscii) = true := by
    simp only [shortNames, lifecycleHooks, List.cons_append, List.nil_append, List.all_cons,
      List.all_nil, String.reduceToList]
    decide +kernel
  intro name hname
  exact List.all_eq_true.mp (List.all_eq_true.mp hall name hname)

/-- An accepted name is ASCII, unless it is an exception. -/
theorem isAscii_of_isWellNamed (h : isWellNamed exceptions d = true) :
    (∀ c ∈ d.name.toList, isAscii c = true) ∨ d.name ∈ exceptions := by
  simp only [isWellNamed, Bool.or_eq_true, Bool.and_eq_true, List.contains_iff_mem] at h
  rcases h with (((hshort | hexception) | hstyle) | ⟨-, hhook⟩) | ⟨-, hpascal⟩
  · exact .inl (isAscii_of_mem_shortNames _ (List.mem_append_left _ hshort))
  · exact .inr hexception
  · exact .inl fun c hc => isAscii_of_isIdentChar (Style.isIdentChar_of_holds hstyle c hc)
  · exact .inl (isAscii_of_mem_shortNames _ (List.mem_append_right _ hhook))
  · exact .inl fun c hc => isAscii_of_isIdentChar (isIdentChar_of_isPascalCase hpascal c hc)

theorem isWellNamed_of_holds (h : (styleOf d.kind).holds d.name.toList = true) :
    isWellNamed exceptions d = true := by
  simp [isWellNamed, h]

theorem isWellNamed_of_mem (h : d.name ∈ exceptions) : isWellNamed exceptions d = true := by
  simp [isWellNamed, h]

/-- The name that is suggested for a declaration. -/
def suggestedName (d : Declaration) : String := str ((styleOf d.kind).apply d.name.toList)

/-- A new name mends a declaration: it is accepted in the place of the old one, and is another. -/
def Mends (exceptions : List String) (d : Declaration) (name : String) : Prop :=
  isWellNamed exceptions { d with name := name } = true ∧ name ≠ d.name

/-- A suggestion mends a badly named declaration exactly if it is ASCII or an exception. -/
theorem mends_suggestedName_iff (h : isWellNamed exceptions d = false) :
    Mends exceptions d (suggestedName d) ↔
      (∀ c ∈ (suggestedName d).toList, isAscii c = true) ∨ suggestedName d ∈ exceptions := by
  constructor
  · rintro ⟨hnew, -⟩
    have hascii := isAscii_of_isWellNamed hnew
    exact hascii
  · intro hname
    have hnew : isWellNamed exceptions { d with name := suggestedName d } = true := by
      rcases hname with hascii | hexception
      · refine isWellNamed_of_holds ?_
        rw [suggestedName, String.toList_ofList] at hascii ⊢
        exact Style.holds_apply_iff.mpr hascii
      · exact isWellNamed_of_mem hexception
    refine ⟨hnew, fun heq => ?_⟩
    -- the old name is not accepted
    have hsame : { d with name := suggestedName d } = d := by rw [heq]
    rw [hsame, h] at hnew
    cases hnew

/-- The suggestion for a name in ASCII mends the declaration. -/
theorem mends_suggestedName (h : isWellNamed exceptions d = false)
    (hascii : ∀ c ∈ d.name.toList, isAscii c = true) : Mends exceptions d (suggestedName d) := by
  refine (mends_suggestedName_iff h).mpr (.inl ?_)
  rw [suggestedName, String.toList_ofList]
  exact Style.isAscii_of_mem_apply hascii

end accepted

/-! ## The check -/

variable {p : Project} {options : Options} {i : Issue}

/-- The check gives the issues of the badly named members. -/
theorem mem_issues_naming_iff {c : Context} :
    i ∈ ((styledDeclarations c).filterMap fun (file, d) =>
        if isWellNamed c.config.namingExceptions d then none else some (namingIssue file d)) ↔
      ∃ s ∈ c.scripts, ∃ d ∈ s.facts.declarations, d.isMember = true ∧
        isWellNamed c.config.namingExceptions d = false ∧ i = namingIssue s.path d := by
  simp only [List.mem_filterMap, styledDeclarations, List.mem_flatMap, List.mem_map,
    List.mem_filter, Option.ite_none_left_eq_some, Bool.not_eq_true, Option.some.injEq]
  constructor
  · rintro ⟨_, ⟨s, hs, d, ⟨hd, hmember⟩, rfl⟩, hbad, rfl⟩
    exact ⟨s, hs, d, hd, hmember, hbad, rfl⟩
  · rintro ⟨s, hs, d, hd, hmember, hbad, rfl⟩
    exact ⟨_, ⟨s, hs, d, ⟨hd, hmember⟩, rfl⟩, hbad, rfl⟩

/-- **A suggested name is accepted**: put in the place of the name that an issue is about, it is
accepted and is another name, exactly if it is ASCII or an exception. It is for everything but the
values of enums, and for each name in ASCII. -/
theorem naming_suggestion_mends (hp : p.IsLoaded) (options : Options) :
    ∃ findings, naming.run ⟨p, options⟩ = .finished findings ∧
      ∀ i ∈ findings.issues, ∃ s ∈ p.scripts, ∃ d ∈ s.facts.declarations, ∃ name,
        d.isMember = true ∧ isWellNamed p.config.namingExceptions d = false ∧
        i = namingIssue s.path d ∧ i.suggestion = some name ∧
        (Mends p.config.namingExceptions d name ↔
          (∀ c ∈ name.toList, isAscii c = true) ∨ name ∈ p.config.namingExceptions) ∧
        ((d.kind ≠ .enumValue ∨ ∀ c ∈ d.name.toList, isAscii c = true) →
          Mends p.config.namingExceptions d name) := by
  refine ⟨_, rfl, fun i hi => ?_⟩
  obtain ⟨s, hs, d, hd, hmember, hbad, rfl⟩ := mem_issues_naming_iff.mp hi
  refine ⟨s, hs, d, hd, suggestedName d, hmember, hbad, rfl, rfl, mends_suggestedName_iff hbad, ?_⟩
  intro h
  refine mends_suggestedName hbad (h.elim (fun hkind => ?_) fun hascii => hascii)
  rw [Project.facts_of_mem_scripts hp hs] at hd
  exact fun c hc => isAscii_of_isIdentChar (Facts.hasIdentName_of_mem_declarations hd hkind c hc)

/-- A project with a variable that is not in `snake_case`. -/
def camelCase : Project := .ofFiles {} [("a.gd", "var playerHealth := 1\n")]

theorem naming_suggestion_mends_camelCase : camelCase.IsLoaded ∧
    ∃ findings, naming.run ⟨camelCase, {}⟩ = .finished findings ∧
      ∃ i ∈ findings.issues, i.suggestion = some "player_health" ∧
        ∃ s ∈ camelCase.scripts, ∃ d ∈ s.facts.declarations, i = namingIssue s.path d ∧
          Mends [] d "player_health" := by
  obtain ⟨findings, hrun, hall⟩ := naming_suggestion_mends (p := camelCase) (.ofFiles ..) {}
  refine ⟨.ofFiles .., findings, hrun, ?_⟩
  obtain rfl := Outcome.finished.inj hrun
  have hsuggestions : (((styledDeclarations ⟨camelCase, {}⟩).filterMap fun (file, d) =>
      if isWellNamed camelCase.config.namingExceptions d then none else some (namingIssue file d)).map
        (·.suggestion)) = [some "player_health"] := by
    decide +kernel
  have hkinds : ∀ s ∈ camelCase.scripts, ∀ d ∈ s.facts.declarations, d.kind ≠ .enumValue := by
    decide +kernel
  obtain ⟨i, hissues, hsuggestion⟩ := List.map_eq_singleton_iff.mp hsuggestions
  have hi : i ∈ [i] := List.mem_singleton_self i
  rw [← hissues] at hi
  obtain ⟨s, hs, d, hd, name, -, -, heq, hname, -, hmends⟩ := hall i hi
  obtain rfl : name = "player_health" := Option.some.inj (hname.symm.trans hsuggestion)
  exact ⟨i, hi, hsuggestion, s, hs, d, hd, heq, hmends (.inl (hkinds s hs d hd))⟩

/-! ## A name beyond ASCII -/

section sun

-- a literal is unified with the list of its characters, one level for each of them
set_option maxRecDepth 60000

theorem isAlphanumeric_sun : isAlphanumeric '日' = true := by
  have htable : alphanumericTable.contains '日' = true := by
    rw [alphanumericTable]
    refine CharTable.contains_ofText _ rfl ?_ ?_
    · decide +kernel
    · decide +kernel
  rw [isAlphanumeric, if_neg (by decide), htable]

theorem lowerChar_sun : lowerChar '日' = ['日'] := by
  have htable : CaseRun.map lowerRuns '日' = ['日'] := by
    refine CaseRun.map_eq_self ?_
    rw [lowerRuns]
    refine CaseRun.forall_mem_ofText _ rfl ?_
    decide +kernel
  rw [lowerChar, if_neg (by decide), htable]

theorem upperChar_sun : upperChar '日' = ['日'] := by
  have htable : CaseRun.map upperRuns '日' = ['日'] := by
    refine CaseRun.map_eq_self ?_
    rw [upperRuns]
    refine CaseRun.forall_mem_ofText _ rfl ?_
    decide +kernel
  rw [upperChar, if_neg (by decide), htable]

end sun

theorem toScreamingCase_sun : toScreamingCase ['日'] = ['日'] := by
  have hwords : words ['日'] = [['日']] := by
    simp [words, wordsFrom, finished, isAlphanumeric_sun]
  have hlower : lower ['日'] = ['日'] := by
    simp [lower, lowerFrom, lowerChar_sun]
  have hbody : snakeBody ['日'] = ['日'] := by
    rw [snakeBody_eq_joined, joined, hwords, List.map_singleton, hlower]
    rfl
  have hsnake : toSnakeCase ['日'] = ['日'] := by
    rw [toSnakeCase, hbody]
    rfl
  simp [toScreamingCase, hsnake, upper, upperChar_sun]

/-- The value of an enum, named by a character that has no case. -/
def sun : Declaration := { kind := .enumValue, name := "日", line := 2, indent := 0 }

/-- A project of one script, with the enum. -/
def calendar : Project := .ofFiles {} [("a.gd", "enum E \x7b\n日\x7d\n")]

/-- What is named on a line below the one that opens an enum, if the script ends there. -/
theorem mem_declarations_of_openEnum {first second : List Char} (indent : Nat)
    (hopen : (Script.Declared.readLine (Function.ofLines [first, second])
      { declarations := (Function.ofLines [first, second]).map Script.functionDeclaration }
      (first, 1)).openEnum = some indent) {d : Declaration}
    (hd : d ∈ Script.enumValueDeclarations (Line.code second) 2 indent) :
    d ∈ (Facts.ofLines [first, second]).declarations := by
  refine mem_stableSort.mpr ?_
  change d ∈ (Script.Declared.readLine _ _ (second, 2)).declarations
  rw [Script.Declared.readLine, hopen]
  exact List.mem_append_right _ hd

theorem sun_mem_declarations :
    sun ∈ (Facts.ofLines ["enum E \x7b".toList, "日\x7d".toList]).declarations := by
  have hcode : Line.code "日\x7d".toList = ['日', '\x7d'] := by decide +kernel
  have hitems : splitAt ',' (before (· == '\x7d') ['日', '\x7d']) = [['日']] := by decide +kernel
  have hname : trim (before (· == '=') ['日']) = ['日'] := by decide +kernel
  have hvalues : Script.enumValues ['日', '\x7d'] = ["日"] := by
    rw [Script.enumValues]
    simp [hitems, hname, isAlphanumeric_sun]
  refine mem_declarations_of_openEnum 0 (by decide +kernel) ?_
  rw [hcode, Script.enumValueDeclarations, hvalues]
  exact List.mem_singleton_self sun

/-- The suggestion for the value is its name, which is not accepted. -/
theorem not_mends_naming_suggestion_sun : calendar.IsLoaded ∧
    ∃ findings, naming.run ⟨calendar, {}⟩ = .finished findings ∧
      ∃ i ∈ findings.issues, ∃ s ∈ calendar.scripts, sun ∈ s.facts.declarations ∧
        i = namingIssue s.path sun ∧ i.suggestion = some sun.name ∧
        isWellNamed calendar.config.namingExceptions sun = false ∧
        ¬ Mends calendar.config.namingExceptions sun sun.name := by
  have hsources : calendar.scripts.map (·.source) =
      [Source.ofText "a.gd" "enum E \x7b\n日\x7d\n".toList] := by
    decide +kernel
  have hlines : (Source.ofText "a.gd" "enum E \x7b\n日\x7d\n".toList).lines =
      ["enum E \x7b".toList, "日\x7d".toList] := by
    decide +kernel
  obtain ⟨s, hscripts, hsource⟩ := List.map_eq_singleton_iff.mp hsources
  have hs : s ∈ calendar.scripts := hscripts ▸ List.mem_singleton_self s
  have hsun : sun ∈ s.facts.declarations := by
    rw [Project.facts_of_mem_scripts (.ofFiles ..) hs, hsource, hlines]
    exact sun_mem_declarations
  have hbad : isWellNamed calendar.config.namingExceptions sun = false := by decide +kernel
  have hsuggestion : suggestedName sun = sun.name := by
    have htoList : sun.name.toList = ['日'] := by decide +kernel
    rw [suggestedName, htoList]
    exact congrArg str toScreamingCase_sun
  refine ⟨.ofFiles .., _, rfl, namingIssue s.path sun, ?_, s, hs, hsun, rfl, ?_, hbad, ?_⟩
  · exact mem_issues_naming_iff.mpr ⟨s, hs, sun, hsun, rfl, hbad, rfl⟩
  · exact congrArg some hsuggestion
  · rintro ⟨-, hne⟩
    exact hne rfl

end GodotLint.Check
