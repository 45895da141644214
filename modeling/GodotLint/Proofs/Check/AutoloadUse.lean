import GodotLint.Check.Autoloads
import GodotLint.Proofs.Ordering
import GodotLint.Proofs.Project.Loaded
import GodotLint.Proofs.Script.Members

/-!
# Uses of singletons

A script uses a singleton where its code names a member of it (`Script.UsesMember`). The index reads uses
from the qualified members of a script, so it has all uses of the names that start with a capital
(`mem_qualifiers`) and none of the others (`isCapitalised_of_mem_qualifiers`). A singleton of another name
counts as unused, however often the scripts name its members.
-/

namespace GodotLint

open Text

/-- Some line of the script names a member of a name: in its code, outside of literals. -/
def Script.UsesMember (s : Script) (name : String) : Prop :=
  ∃ raw ∈ s.source.lines, Line.NamesMember (Line.mask (Line.code raw)) name

/-! ## Qualified members of scripts -/

namespace Mention

variable {functions : List Function} {raw : List Char} {line : Nat} {m : Mention} {target : String}

/-- A line with a qualified member has code. -/
theorem isAllBlank_eq_false_of_mem_membersIn {code : List Char} (h : target ∈ membersIn code) :
    isAllBlank code = false := by
  obtain ⟨m, hm, -⟩ := List.mem_filterMap.mp h
  obtain ⟨a, w, b, gs, rfl, hacc, -⟩ := Pattern.occurs_of_mem_findAll hm
  obtain ⟨⟨-, u, v, rfl, -, -⟩, -⟩ := accepts_qualified.mp hacc
  rw [isAllBlank, List.all_eq_false]
  exact ⟨'.', by simp, by decide⟩

/-- Among what a line of code mentions, the qualified members are its members. -/
theorem autoloadMember_mem_inCode_iff {code : List Char} :
    (.autoloadMember, target) ∈ inCode code ↔ target ∈ membersIn code := by
  simp [inCode]

/-- The qualified members that a line mentions. -/
theorem mem_ofLine_iff : (∃ m ∈ ofLine functions raw line, m.kind = .autoloadMember ∧
    m.target = target) ↔ target ∈ membersIn (Line.code raw) := by
  rw [← autoloadMember_mem_inCode_iff, ofLine]
  cases hblank : isAllBlank (Line.code raw) with
  | true =>
      rw [autoloadMember_mem_inCode_iff]
      simp only [if_true, List.not_mem_nil, false_and, exists_false, false_iff]
      intro h
      rw [isAllBlank_eq_false_of_mem_membersIn h] at hblank
      cases hblank
  | false =>
      simp only [Bool.false_eq_true, if_false, List.mem_map, Prod.exists]
      constructor
      · rintro ⟨m, ⟨kind, target, hmem, rfl⟩, rfl, rfl⟩
        exact hmem
      · exact fun hmem => ⟨_, ⟨_, _, hmem, rfl⟩, rfl, rfl⟩

end Mention

namespace Index

variable {s : Script} {name : String}

/-- The qualified names of a script are those on its lines. -/
theorem mem_qualifiers_iff (hs : s.facts = .ofLines s.source.lines) :
    name ∈ qualifiers s.facts ↔ ∃ raw ∈ s.source.lines,
      ∃ target ∈ Mention.membersIn (Line.code raw), qualifier target = name := by
  have hmentions : s.facts.mentions =
      Mention.ofLines s.source.lines (Function.ofLines s.source.lines) := by rw [hs]; rfl
  simp only [qualifiers, hmentions, Mention.ofLines, List.mem_map, List.mem_filter, List.mem_flatMap,
    decide_eq_true_iff]
  constructor
  · rintro ⟨m, ⟨⟨⟨raw, line⟩, hline, hm⟩, hkind⟩, rfl⟩
    refine ⟨raw, List.fst_mem_of_mem_zipIdx hline, m.target, ?_, rfl⟩
    exact Mention.mem_ofLine_iff.mp ⟨m, hm, hkind, rfl⟩
  · rintro ⟨raw, hraw, target, htarget, rfl⟩
    obtain ⟨line, hline⟩ := exists_mem_zipIdx hraw 1
    obtain ⟨m, hm, hkind, rfl⟩ := Mention.mem_ofLine_iff.mpr htarget
    exact ⟨m, ⟨⟨_, hline, hm⟩, hkind⟩, rfl⟩

/-- A script qualifies every name with a capital whose members it names. -/
theorem mem_qualifiers (hs : s.facts = .ofLines s.source.lines) (hname : isIdent name.toList = true)
    (hcap : IsCapitalised name) (h : s.UsesMember name) : name ∈ qualifiers s.facts := by
  obtain ⟨raw, hraw, hnames⟩ := h
  exact (mem_qualifiers_iff hs).mpr ⟨raw, hraw, Mention.exists_mem_membersIn hname hcap hnames⟩

/-- A script qualifies names with a capital only. -/
theorem isCapitalised_of_mem_qualifiers (hs : s.facts = .ofLines s.source.lines)
    (h : name ∈ qualifiers s.facts) : IsCapitalised name := by
  obtain ⟨raw, -, target, htarget, rfl⟩ := (mem_qualifiers_iff hs).mp h
  exact Mention.isCapitalised_of_mem_membersIn htarget

/-! ## Users of a singleton -/

variable {names : List String} {scripts : List Script} {scenes : List Scene} {files : List String}
  {decl : Autoload} {path : String}

/-- The users of a singleton are the other scripts that qualify its name. -/
theorem mem_uses_iff : path ∈ (autoloadEntry names scripts scenes files decl).uses ↔
    ∃ s ∈ scripts, autoloadScript? scenes decl.path ≠ some s.path ∧
      decl.name ∈ qualifiers s.facts ∧ s.path = path := by
  simp only [autoloadEntry, List.partition_eq_filter_filter, List.mem_flatMap, List.mem_filter,
    List.mem_map, Function.comp_apply, Bool.not_eq_true', beq_eq_false_iff_ne]
  constructor
  · rintro ⟨s, ⟨hs, hother⟩, q, ⟨hq, hname⟩, rfl⟩
    exact ⟨s, hs, hother, beq_iff_eq.mp hname ▸ hq, rfl⟩
  · rintro ⟨s, hs, hother, hq, rfl⟩
    exact ⟨s, ⟨hs, hother⟩, decl.name, ⟨hq, beq_self_eq_true _⟩, rfl⟩

end Index

namespace Check

variable {p : Project} {name : String}

/-- The singletons of a project come from declarations. -/
theorem exists_of_mem_autoloads (hp : p.IsLoaded) {a : AutoloadEntry} (ha : a ∈ p.index.autoloads) :
    ∃ names decl, a = Index.autoloadEntry names p.scripts p.scenes p.files decl := by
  rw [Project.index_eq_build hp] at ha
  change a ∈ p.settings.elim [] (Index.autoloadEntries p.scripts p.scenes p.files) at ha
  cases hsettings : p.settings with
  | none => simp [hsettings] at ha
  | some settings =>
      rw [hsettings, Option.elim_some, Index.autoloadEntries] at ha
      obtain ⟨decl, -, rfl⟩ := List.mem_map.mp ha
      exact ⟨_, decl, rfl⟩

/-- Every other script that names a member is a user of the singleton, if its name has a capital. -/
theorem mem_uses_of_usesMember (hp : p.IsLoaded) {a : AutoloadEntry} (ha : a ∈ p.index.autoloads)
    (hname : isIdent a.name.toList = true) (hcap : IsCapitalised a.name) {s : Script}
    (hs : s ∈ p.scripts) (hother : a.script ≠ some s.path) (huses : s.UsesMember a.name) :
    s.path ∈ a.uses := by
  obtain ⟨names, decl, rfl⟩ := exists_of_mem_autoloads hp ha
  exact Index.mem_uses_iff.mpr
    ⟨s, hs, hother, Index.mem_qualifiers (Project.facts_of_mem_scripts hp hs) hname hcap huses, rfl⟩

/-- A singleton whose name has no capital has no users. -/
theorem uses_eq_nil (hp : p.IsLoaded) {a : AutoloadEntry} (ha : a ∈ p.index.autoloads)
    (hcap : ¬ IsCapitalised a.name) : a.uses = [] := by
  obtain ⟨names, decl, rfl⟩ := exists_of_mem_autoloads hp ha
  refine List.eq_nil_iff_forall_not_mem.mpr fun path hpath => hcap ?_
  obtain ⟨s, hs, -, hq, -⟩ := Index.mem_uses_iff.mp hpath
  exact Index.isCapitalised_of_mem_qualifiers (Project.facts_of_mem_scripts hp hs) hq

/-! ## The report -/

/-- A singleton of the name is reported as unused. -/
def IsReportedUnused (findings : Findings) (name : String) : Prop :=
  ∃ issue ∈ findings.issues, issue.kind = "unused_autoload" ∧
    issue.message = "autoload '" ++ name ++ "' is never referenced"

instance (findings : Findings) (name : String) : Decidable (IsReportedUnused findings name) :=
  inferInstanceAs (Decidable (∃ issue ∈ findings.issues, _))

/-- The check finishes, and reports as unused the singletons that are there and have no users. -/
theorem exists_findings_unused (c : Context) : ∃ findings, autoloads.run c = .finished findings ∧
    ∀ name, IsReportedUnused findings name ↔
      ∃ a ∈ c.index.autoloads, a.name = name ∧ a.present = true ∧ a.uses = [] := by
  refine ⟨_, rfl, fun name => ?_⟩
  simp only [IsReportedUnused, List.mem_append, List.mem_filterMap, List.mem_map]
  constructor
  · rintro ⟨issue, ⟨a, ha, hissue⟩ | ⟨cycle, -, rfl⟩, hkind, hmessage⟩
    · unfold autoloadIssue? at hissue
      split_ifs at hissue with hmissing hunused
      · cases hissue
        simp at hkind
      · cases hissue
        have hname : a.name.toList = name.toList := by
          simpa using congrArg String.toList hmessage
        exact ⟨a, ha, String.toList_injective hname, by simpa using hmissing,
          List.isEmpty_iff.mp hunused⟩
    · simp [autoloadCycleIssue] at hkind
  · rintro ⟨a, ha, rfl, hpresent, hunused⟩
    have hissue : ∃ issue, autoloadIssue? a = some issue ∧ issue.kind = "unused_autoload" ∧
        issue.message = "autoload '" ++ a.name ++ "' is never referenced" := by
      simp [autoloadIssue?, hpresent, hunused]
    obtain ⟨issue, hissue, hkind, hmessage⟩ := hissue
    exact ⟨issue, .inl ⟨a, ha, hissue⟩, hkind, hmessage⟩

/-- What the check knows of the uses of a singleton. -/
structure TellsUse (p : Project) (findings : Findings) (name : String) : Prop where
  /-- The use of a singleton in another script counts exactly if its name has a capital. -/
  counted : ∀ a ∈ p.index.autoloads, a.name = name → ∀ s ∈ p.scripts, a.script ≠ some s.path →
    s.UsesMember name → ((1 ≤ a.uses.length ∧ s.path ∈ a.users) ↔ IsCapitalised name)
  /-- If another script uses the singletons of a name, they are reported as unused exactly if the name
  has no capital and the file of one of them is there. -/
  reported : (∃ s ∈ p.scripts, s.UsesMember name ∧
      ∀ a ∈ p.index.autoloads, a.name = name → a.script ≠ some s.path) →
    (IsReportedUnused findings name ↔ ¬ IsCapitalised name ∧
      ∃ a ∈ p.index.autoloads, a.name = name ∧ a.present = true)

/-- **The use of a singleton is overlooked exactly if its name does not start with a capital**, for every
project that a program may meet and every name that is an identifier. -/
theorem autoloads_tellsUse (hp : p.IsLoaded) (options : Options) :
    ∃ findings, autoloads.run ⟨p, options⟩ = .finished findings ∧
      ∀ name, isIdent name.toList = true → TellsUse p findings name := by
  obtain ⟨findings, hrun, hreported⟩ := exists_findings_unused ⟨p, options⟩
  refine ⟨findings, hrun, fun name hname => ⟨?_, ?_⟩⟩
  · rintro a ha rfl s hs hother huses
    constructor
    · rintro ⟨hlength, -⟩
      by_contra hcap
      rw [uses_eq_nil hp ha hcap] at hlength
      cases hlength
    · intro hcap
      have hmem := mem_uses_of_usesMember hp ha hname hcap hs hother huses
      exact ⟨List.length_pos_of_mem hmem, mem_sortedSet.mpr hmem⟩
  · rintro ⟨s, hs, huses, hother⟩
    rw [hreported]
    constructor
    · rintro ⟨a, ha, rfl, hpresent, hunused⟩
      refine ⟨fun hcap => ?_, a, ha, rfl, hpresent⟩
      have hmem := mem_uses_of_usesMember hp ha hname hcap hs (hother a ha rfl) huses
      rw [hunused] at hmem
      cases hmem
    · rintro ⟨hcap, a, ha, rfl, hpresent⟩
      exact ⟨a, ha, rfl, hpresent, uses_eq_nil hp ha hcap⟩

/-- A script that uses a singleton of another script. -/
def player : Project := .ofFiles {}
  [("audio.gd", "func play():\n\tpass\n"), ("main.gd", "func f():\n\tAudio.play()\n"),
    ("project.godot", "[autoload]\nAudio=\"*res://audio.gd\"\n")]

theorem autoloads_tellsUse_player : player.IsLoaded ∧ isIdent "Audio".toList = true ∧
    ∃ findings, autoloads.run ⟨player, {}⟩ = .finished findings ∧ TellsUse player findings "Audio" ∧
      (∃ a ∈ player.index.autoloads, a.name = "Audio" ∧ 1 ≤ a.uses.length ∧ "main.gd" ∈ a.users) ∧
      ¬ IsReportedUnused findings "Audio" := by
  have hname : isIdent "Audio".toList = true := by decide
  have hcap : IsCapitalised "Audio" := by decide
  obtain ⟨findings, hrun, hall⟩ := autoloads_tellsUse (p := player) (.ofFiles ..) {}
  have htells := hall "Audio" hname
  have hscript : ∃ s ∈ player.scripts, s.path = "main.gd" ∧
      "\tAudio.play()".toList ∈ s.source.lines := by decide +kernel
  obtain ⟨s, hs, hpath, hraw⟩ := hscript
  have huses : s.UsesMember "Audio" :=
    ⟨_, hraw, "\t".toList, "play".toList, "()".toList, by decide +kernel, by decide, by decide,
      by decide⟩
  have hentry : ∃ a ∈ player.index.autoloads, a.name = "Audio" := by decide +kernel
  have hother : ∀ a ∈ player.index.autoloads, a.script ≠ some "main.gd" := by decide +kernel
  refine ⟨.ofFiles .., hname, findings, hrun, htells, ?_, ?_⟩
  · obtain ⟨a, ha, haname⟩ := hentry
    have hcounted := (htells.counted a ha haname s hs (hpath ▸ hother a ha) huses).mpr hcap
    exact ⟨a, ha, haname, hcounted.1, hpath ▸ hcounted.2⟩
  · rw [htells.reported ⟨s, hs, huses, fun a ha _ => hpath ▸ hother a ha⟩, not_and]
    exact fun hlower => absurd hcap hlower

/-- The same with a name in lower case. -/
def quietPlayer : Project := .ofFiles {}
  [("audio.gd", "func play():\n\tpass\n"), ("main.gd", "func f():\n\taudio.play()\n"),
    ("project.godot", "[autoload]\naudio=\"*res://audio.gd\"\n")]

/-- A singleton that another script uses has no users and is reported as unused. -/
theorem autoloads_overlooks_lowercase : isIdent "audio".toList = true ∧
    (∃ s ∈ quietPlayer.scripts, s.UsesMember "audio" ∧ ∃ a ∈ quietPlayer.index.autoloads,
      a.name = "audio" ∧ a.script ≠ some s.path ∧ a.uses.length = 0 ∧ s.path ∉ a.users) ∧
    ∃ findings, autoloads.run ⟨quietPlayer, {}⟩ = .finished findings ∧
      IsReportedUnused findings "audio" := by
  refine ⟨by decide, ?_, _, rfl, by decide +kernel⟩
  have hscript : ∃ s ∈ quietPlayer.scripts, "\taudio.play()".toList ∈ s.source.lines ∧
      ∃ a ∈ quietPlayer.index.autoloads,
        a.name = "audio" ∧ a.script ≠ some s.path ∧ a.uses.length = 0 ∧ s.path ∉ a.users := by
    decide +kernel
  obtain ⟨s, hs, hraw, hentry⟩ := hscript
  exact ⟨s, hs, ⟨_, hraw, "\t".toList, "play".toList, "()".toList, by decide +kernel, by decide,
    by decide, by decide⟩, hentry⟩

end Check

end GodotLint
