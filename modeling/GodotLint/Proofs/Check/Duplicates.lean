import GodotLint.Proofs.Check.Renaming
import GodotLint.Proofs.Check.TopLevel
import GodotLint.Proofs.Index.Classes
import GodotLint.Proofs.Script.Comments
import GodotLint.Proofs.Project.Loaded

/-!
# Code that is repeated

Blocks are put into groups by their keys, each group having the blocks of its key in the order in which they
stand in the project (`isGrouping_groupsOf`). Every member of a group but the first gives an issue, so there
are as many issues as blocks without the groups. A function whose body is a copy of another one with names
replaced has a block of the same key (`key_eq_of_isRenamedCopy`), and so the two are in one group.
-/

namespace GodotLint.Check

open Text

/-! ## Groups of blocks -/

section groups

variable {blocks g : List Block}

/-- The blocks of each key, in the order of the keys. -/
def groupsOf (blocks : List Block) : List (List Block) := (groupBlocks blocks).values

/-- The groups have every block once, each group all blocks of one key in their order. -/
structure IsGrouping (blocks : List Block) (groups : List (List Block)) : Prop where
  perm : groups.flatten.Perm blocks
  ne_nil : ∀ g ∈ groups, g ≠ []
  same_key : ∀ g ∈ groups, ∀ b ∈ g, g = blocks.filter (·.key = b.key)
  distinct : groups.Pairwise fun g g' => ∀ b ∈ g, ∀ b' ∈ g', b.key ≠ b'.key

theorem groupBlocks_eq (blocks : List Block) :
    groupBlocks blocks = Index.group (blocks.map fun b => (str b.key, b)) := by
  rw [groupBlocks, Index.group, List.foldl_map]

theorem pairwise_keys_groupBlocks (blocks : List Block) :
    (groupBlocks blocks).keys.Pairwise (· < ·) := by
  rw [groupBlocks_eq]
  exact Index.pairwise_keys_group _

/-- A group has the blocks of a key. -/
theorem eq_filter_of_mem_entries {key : String} (h : (key, g) ∈ (groupBlocks blocks).entries) :
    g ≠ [] ∧ g = blocks.filter (str ·.key = key) := by
  have hfound := SortedMap.get?_of_mem_entries (pairwise_keys_groupBlocks blocks) h
  have hvalues : Index.valuesOf (blocks.map fun b => (str b.key, b)) key =
      blocks.filter (str ·.key = key) := by
    rw [Index.valuesOf, List.filter_map, List.map_map]
    exact List.map_id _
  rw [groupBlocks_eq, Index.get?_group, hvalues] at hfound
  split_ifs at hfound with hnil
  obtain rfl := Option.some.inj hfound
  exact ⟨hnil, rfl⟩

/-- The blocks of a group have its key. -/
theorem str_key_of_mem {key : String} {b : Block} (h : (key, g) ∈ (groupBlocks blocks).entries)
    (hb : b ∈ g) : str b.key = key := by
  rw [(eq_filter_of_mem_entries h).2] at hb
  exact of_decide_eq_true (List.mem_filter.mp hb).2

theorem perm_flatten_groupsOf (blocks : List Block) : (groupsOf blocks).flatten.Perm blocks := by
  induction blocks using List.reverseRecOn with
  | nil => exact .refl _
  | append_singleton blocks b ih =>
      have hlast : groupsOf (blocks ++ [b]) = ((groupBlocks blocks).append (str b.key) b).values := by
        rw [groupsOf, groupBlocks, List.foldl_append]
        rfl
      rw [hlast]
      exact (SortedMap.perm_flatten_values_append b).trans (ih.append_right [b])

theorem isGrouping_groupsOf (blocks : List Block) : IsGrouping blocks (groupsOf blocks) := by
  refine ⟨perm_flatten_groupsOf blocks, ?_, ?_, ?_⟩
  · intro g hg
    obtain ⟨⟨key, _⟩, hentry, rfl⟩ := List.mem_map.mp hg
    exact (eq_filter_of_mem_entries hentry).1
  · intro g hg b hb
    obtain ⟨⟨key, _⟩, hentry, rfl⟩ := List.mem_map.mp hg
    obtain rfl := str_key_of_mem hentry hb
    refine (eq_filter_of_mem_entries hentry).2.trans (List.filter_congr fun b' _ => ?_)
    rw [decide_eq_decide]
    exact ⟨String.ofList_injective, congrArg str⟩
  · have hkeys := pairwise_keys_groupBlocks blocks
    rw [SortedMap.keys, List.pairwise_map] at hkeys
    rw [groupsOf, SortedMap.values, List.pairwise_map]
    refine hkeys.imp_of_mem fun hentry hentry' hlt b hb b' hb' heq => hlt.ne ?_
    rw [← str_key_of_mem hentry hb, ← str_key_of_mem hentry' hb', heq]

namespace IsGrouping

variable {groups : List (List Block)}

/-- Two blocks of one key are in one group. -/
theorem exists_mem_of_key_eq (h : IsGrouping blocks groups) {b b' : Block} (hb : b ∈ blocks)
    (hb' : b' ∈ blocks) (hkey : b.key = b'.key) : ∃ g ∈ groups, b ∈ g ∧ b' ∈ g := by
  obtain ⟨g, hg, hmem⟩ := List.mem_flatten.mp (h.perm.mem_iff.mpr hb)
  refine ⟨g, hg, hmem, ?_⟩
  rw [h.same_key g hg b hmem]
  exact List.mem_filter.mpr ⟨hb', decide_eq_true hkey.symm⟩

/-- Groups keep the order of the blocks of a key. -/
theorem pairwise (h : IsGrouping blocks groups) {R : Block → Block → Prop}
    (hR : blocks.Pairwise fun b b' => b.key = b'.key → R b b') : ∀ g ∈ groups, g.Pairwise R := by
  intro g hg
  obtain ⟨b, hb⟩ := List.exists_mem_of_ne_nil g (h.ne_nil g hg)
  rw [h.same_key g hg b hb]
  refine (hR.filter _).imp_of_mem fun hx hy hxy => hxy ?_
  rw [of_decide_eq_true (List.mem_filter.mp hx).2, of_decide_eq_true (List.mem_filter.mp hy).2]

end IsGrouping

/-! ## What is reported -/

/-- Every member of a group but the first, with the first one. -/
def copiesIn : List Block → List (Block × Block)
  | [] => []
  | first :: others => others.map (first, ·)

/-- An issue at a block that repeats another one. -/
structure IsCopyIssue (pair : Block × Block) (i : Issue) : Prop where
  kind : i.kind = "duplicate_block"
  file : i.file = pair.2.file
  line : i.line = pair.2.first
  severity : i.severity = .warning
  message : i.message = pair.2.label ++ " (" ++ toString pair.2.lines.length ++ " lines) duplicates " ++
    pair.1.label ++ " at " ++ pair.1.file ++ ":" ++ toString pair.1.first

/-- How a group is shown in the summary. -/
def groupValue : List Block → Json
  | [] => .null
  | first :: others => groupSummary (str first.key) first others

/-- A group that has a copy, with its key. -/
def repeated? : List Block → Option (String × Block × List Block)
  | first :: second :: more => some (str first.key, first, second :: more)
  | _ => none

theorem repeatedGroups_eq (blocks : List Block) :
    repeatedGroups blocks = (groupsOf blocks).filterMap repeated? := by
  rw [repeatedGroups, groupsOf, SortedMap.values, List.filterMap_map]
  refine List.filterMap_congr fun entry hentry => ?_
  obtain ⟨key, g⟩ := entry
  match g with
  | [] => rfl
  | [b] => rfl
  | first :: second :: more =>
      rw [Function.comp_apply, repeated?, str_key_of_mem hentry List.mem_cons_self]

/-- A group of one block has no copies. -/
theorem flatMap_repeated? (groups : List (List Block)) :
    ((groups.filterMap repeated?).flatMap fun x => x.2.2.map (repeatedBlockIssue x.2.1)) =
      (groups.flatMap copiesIn).map fun pair => repeatedBlockIssue pair.1 pair.2 := by
  rw [List.filterMap_eq_flatMap_toList, List.flatMap_assoc, List.map_flatMap]
  refine List.flatMap_congr fun g _ => ?_
  match g with
  | [] => rfl
  | [b] => rfl
  | first :: second :: more => simp [repeated?, copiesIn]

/-- A group of one block is not told. -/
theorem map_repeated? (groups : List (List Block)) :
    (groups.filterMap repeated?).map (fun x => groupSummary x.1 x.2.1 x.2.2) =
      (groups.filter (2 ≤ ·.length)).map groupValue := by
  rw [List.map_filterMap, ← List.filterMap_eq_map, List.filterMap_filter]
  refine List.filterMap_congr fun g _ => ?_
  match g with
  | [] => rfl
  | [b] => rfl
  | first :: second :: more => simp [repeated?, groupValue]

/-- As many copies as blocks without the groups. -/
theorem length_flatMap_copiesIn {groups : List (List Block)} (hne : ∀ g ∈ groups, g ≠ []) :
    (groups.flatMap copiesIn).length + groups.length = groups.flatten.length := by
  induction groups with
  | nil => rfl
  | cons g groups ih =>
      obtain ⟨hg, hgroups⟩ := List.forall_mem_cons.mp hne
      obtain ⟨first, others, rfl⟩ := List.exists_cons_of_ne_nil hg
      rw [List.flatMap_cons, List.length_append, List.length_cons, List.flatten_cons,
        List.length_append, ← ih hgroups, copiesIn, List.length_map, List.length_cons]
      omega

end groups

/-! ## The order of blocks -/

section order

/-- One block comes before another: in an earlier script, or above it in the same one. -/
def IsBefore (b b' : Block) : Prop := b.file < b'.file ∨ b.file = b'.file ∧ b.first < b'.first

variable {minLines : Nat} {s : Script} {scripts : List Script} {b b' : Block}

theorem file_of_mem_ofScript (h : b ∈ Block.ofScript minLines s) : b.file = s.path := by
  rcases List.mem_append.mp (List.mem_of_mem_filter h) with hf | hr
  · obtain ⟨f, -, rfl⟩ := List.mem_map.mp hf
    rfl
  · obtain ⟨r, -, rfl⟩ := List.mem_map.mp hr
    rfl

/-- In a script, blocks of one kind start one below the other. -/
theorem pairwise_ofScript (hrising : s.facts.functions.Pairwise (·.line < ·.line)) :
    (Block.ofScript minLines s).Pairwise fun b b' =>
      b.function.isSome = b'.function.isSome → b.first < b'.first := by
  have hpieces := arePieces_topLevelRuns s.source.lines s.facts.functions
  have hruns : (topLevelRuns s.source.lines s.facts.functions).Pairwise (·.first < ·.first) := by
    refine hpieces.apart.imp_of_mem fun hr _ hlt => ?_
    have hle := (hpieces.isRun _ hr).first_le_last
    omega
  refine List.Pairwise.filter _ (List.pairwise_append.mpr ⟨?_, ?_, ?_⟩)
  · refine List.pairwise_map.mpr (hrising.imp ?_)
    exact fun hlt _ => hlt
  · refine List.pairwise_map.mpr (hruns.imp ?_)
    exact fun hlt _ => hlt
  · rintro _ hf _ hr hkind
    obtain ⟨f, -, rfl⟩ := List.mem_map.mp hf
    obtain ⟨r, -, rfl⟩ := List.mem_map.mp hr
    cases hkind

/-- Blocks of one key are of one kind. -/
theorem isSome_eq_of_key_eq (h : b.key = b'.key) : b.function.isSome = b'.function.isSome := by
  have hhead := congrArg List.head? h
  rw [Block.key, Block.key] at hhead
  cases hb : b.function.isSome <;> cases hb' : b'.function.isSome <;> simp_all

/-- The blocks of all scripts are in the order of the paths. -/
theorem pairwise_file_blocks (h : scripts.Pairwise fun s t => s.path ≤ t.path) :
    (scripts.flatMap (Block.ofScript minLines)).Pairwise fun b b' => b.file ≤ b'.file := by
  refine List.pairwise_flatMap.mpr ⟨fun s _ => ?_, h.imp fun hle b hb b' hb' => ?_⟩
  · refine List.Pairwise.imp_of_mem (fun hb hb' _ => ?_) (List.pairwise_of_forall fun _ _ => trivial)
    rw [file_of_mem_ofScript hb, file_of_mem_ofScript hb']
  · rwa [file_of_mem_ofScript hb, file_of_mem_ofScript hb']

/-- Those of one kind stand one before the other, if no two scripts have the same path. -/
theorem pairwise_isBefore_blocks (h : scripts.Pairwise fun s t => s.path < t.path)
    (hrising : ∀ s ∈ scripts, s.facts.functions.Pairwise (·.line < ·.line)) :
    (scripts.flatMap (Block.ofScript minLines)).Pairwise fun b b' =>
      b.function.isSome = b'.function.isSome → IsBefore b b' := by
  refine List.pairwise_flatMap.mpr ⟨fun s hs => ?_, h.imp fun hlt b hb b' hb' _ => .inl ?_⟩
  · refine (pairwise_ofScript (hrising s hs)).imp_of_mem fun hb hb' hfirst hkind => .inr ⟨?_, hfirst hkind⟩
    rw [file_of_mem_ofScript hb, file_of_mem_ofScript hb']
  · rwa [file_of_mem_ofScript hb, file_of_mem_ofScript hb']

end order

/-! ## Copies -/

section copies

variable {s s' : Script} {f f' : Function}

/-- The lines of a body that have code. -/
def codeLines (s : Script) (f : Function) : List (List Char) :=
  ((s.source.lines.drop f.line).take f.bodyLines).filter fun l => !(trim (Line.code l)).isEmpty

/-- The body of the second function arises from that of the first one, line by line, by replacing names. -/
def IsRenamedCopy (s : Script) (f : Function) (s' : Script) (f' : Function) : Prop :=
  List.Forall₂ Repetition.IsCopy (codeLines s f) (codeLines s' f')

/-- The block of a function has the normal forms of its lines of code. -/
theorem lines_ofFunction (s : Script) (f : Function) :
    (Block.ofFunction s f).lines = (codeLines s f).map Repetition.normalLine := by
  change (((s.source.lines.drop f.line).take f.bodyLines).map Repetition.normalLine).filter
    (!·.isEmpty) = _
  rw [codeLines, List.filter_map]
  refine congrArg _ (List.filter_congr fun l _ => ?_)
  rw [Function.comp_apply, Bool.eq_iff_iff, Bool.not_eq_true', Bool.not_eq_true', List.isEmpty_eq_false_iff,
    List.isEmpty_eq_false_iff, ne_eq, ne_eq, Repetition.normalLine_eq_nil_iff]

theorem feed_not_mem_codeLines {l : List Char} (h : l ∈ codeLines s f) : '\n' ∉ l :=
  s.source.not_mem_lines l (List.mem_of_mem_drop (List.mem_of_mem_take (List.mem_of_mem_filter h)))

/-- **A renamed copy has the same block**, up to where it stands. -/
theorem lines_eq_of_isRenamedCopy (h : IsRenamedCopy s f s' f') :
    (Block.ofFunction s f).lines = (Block.ofFunction s' f').lines := by
  rw [lines_ofFunction, lines_ofFunction]
  have hfeed : ∀ l ∈ codeLines s f, '\n' ∉ l := fun l hl => feed_not_mem_codeLines hl
  unfold IsRenamedCopy at h
  generalize codeLines s f = lines at h hfeed ⊢
  generalize codeLines s' f' = lines' at h ⊢
  induction h with
  | nil => rfl
  | cons hcopy _ ih =>
      obtain ⟨hl, hrest⟩ := List.forall_mem_cons.mp hfeed
      rw [List.map_cons, List.map_cons, hcopy.normalLine_eq hl, ih hrest]

theorem key_eq_of_isRenamedCopy (h : IsRenamedCopy s f s' f') :
    (Block.ofFunction s f).key = (Block.ofFunction s' f').key := by
  rw [Block.key, Block.key, lines_eq_of_isRenamedCopy h]
  rfl

/-- A body that is long enough is a block. -/
theorem ofFunction_mem_ofScript {minLines : Nat} (hf : f ∈ s.facts.functions)
    (hlong : minLines ≤ (codeLines s f).length) :
    Block.ofFunction s f ∈ Block.ofScript minLines s := by
  refine List.mem_filter.mpr ⟨List.mem_append_left _ (List.mem_map_of_mem hf), decide_eq_true ?_⟩
  rwa [lines_ofFunction, List.length_map]

end copies

/-! ## The report -/

/-- The blocks of a project that are long enough. -/
def blocksOf (c : Context) : List Block :=
  c.scripts.flatMap (Block.ofScript (c.limit c.config.duplicateLines))

/-- What the check tells of repeated code, the blocks being in the given groups. -/
structure TellsCopies (c : Context) (findings : Findings) (groups : List (List Block)) : Prop where
  grouping : IsGrouping (blocksOf c) groups
  /-- In the order of the paths, and of the lines where these tell the scripts apart. -/
  by_path : ∀ g ∈ groups, g.Pairwise fun b b' => b.file ≤ b'.file
  by_line : (c.scripts.map (·.path)).Nodup → ∀ g ∈ groups, g.Pairwise IsBefore
  /-- A function is found together with every renamed copy of it. -/
  together : ∀ s ∈ c.scripts, ∀ f ∈ s.facts.functions, ∀ s' ∈ c.scripts, ∀ f' ∈ s'.facts.functions,
    c.limit c.config.duplicateLines ≤ (codeLines s f).length → IsRenamedCopy s f s' f' →
    ∃ g ∈ groups, Block.ofFunction s f ∈ g ∧ Block.ofFunction s' f' ∈ g
  /-- Every member of a group but the first is reported once, as a copy of the first. -/
  reported : List.Forall₂ IsCopyIssue (groups.flatMap copiesIn) findings.issues
  blocks : findings.summary.get? "blocks" = some (.nat (blocksOf c).length)
  length_issues : findings.issues.length + groups.length = (blocksOf c).length
  shown : ∃ values, findings.summary.get? "groups" = some (.arr values) ∧
    values.Perm ((groups.filter (2 ≤ ·.length)).map groupValue)

/-- The report of the check. -/
theorem exists_findings_duplicates (c : Context) : ∃ findings, duplicates.run c = .finished findings ∧
    findings.summary.get? "blocks" = some (.nat (blocksOf c).length) ∧
    findings.summary.get? "groups" = some (.arr ((stableSort groupLe (repeatedGroups (blocksOf c))).map
      fun x => groupSummary x.1 x.2.1 x.2.2)) ∧
    findings.issues =
      (repeatedGroups (blocksOf c)).flatMap fun x => x.2.2.map (repeatedBlockIssue x.2.1) := by
  refine ⟨_, rfl, ?_, ?_, rfl⟩
  · rw [SortedMap.get?_ofList]
    rfl
  · rw [SortedMap.get?_ofList]
    rfl

theorem isCopyIssue_repeatedBlockIssue (pair : Block × Block) :
    IsCopyIssue pair (repeatedBlockIssue pair.1 pair.2) := ⟨rfl, rfl, rfl, rfl, rfl⟩

/-- **Renamed copies are found**, for every project. -/
theorem duplicates_tellsCopies {p : Project} (hp : p.IsLoaded) (options : Options) :
    ∃ findings groups, duplicates.run ⟨p, options⟩ = .finished findings ∧
      TellsCopies ⟨p, options⟩ findings groups := by
  obtain ⟨findings, hrun, hblocks, hshown, hissues⟩ := exists_findings_duplicates ⟨p, options⟩
  have hgrouping := isGrouping_groupsOf (blocksOf ⟨p, options⟩)
  rw [repeatedGroups_eq, flatMap_repeated?] at hissues
  refine ⟨findings, groupsOf (blocksOf ⟨p, options⟩), hrun, hgrouping, ?_, ?_, ?_, ?_, hblocks, ?_,
    _, hshown, ?_⟩
  · have hordered : (blocksOf ⟨p, options⟩).Pairwise fun b b' => b.file ≤ b'.file :=
      pairwise_file_blocks (Project.pairwise_path_scripts hp)
    refine hgrouping.pairwise (hordered.imp ?_)
    exact fun hle _ => hle
  · intro hdistinct
    have hrising : ∀ s ∈ p.scripts, s.facts.functions.Pairwise (·.line < ·.line) := by
      intro s hs
      rw [Project.facts_of_mem_scripts hp hs]
      exact Function.pairwise_line_ofLines _
    have hordered : (blocksOf ⟨p, options⟩).Pairwise fun b b' =>
        b.function.isSome = b'.function.isSome → IsBefore b b' :=
      pairwise_isBefore_blocks (Project.pairwise_path_lt_scripts hp hdistinct) hrising
    exact hgrouping.pairwise (hordered.imp fun hbefore hkey => hbefore (isSome_eq_of_key_eq hkey))
  · intro s hs f hf s' hs' f' hf' hlong hcopy
    have hblock : Block.ofFunction s f ∈ blocksOf ⟨p, options⟩ :=
      List.mem_flatMap.mpr ⟨s, hs, ofFunction_mem_ofScript hf hlong⟩
    have hblock' : Block.ofFunction s' f' ∈ blocksOf ⟨p, options⟩ :=
      List.mem_flatMap.mpr ⟨s', hs', ofFunction_mem_ofScript hf' (hcopy.length_eq ▸ hlong)⟩
    exact hgrouping.exists_mem_of_key_eq hblock hblock' (key_eq_of_isRenamedCopy hcopy)
  · rw [hissues, List.forall₂_map_right_iff]
    exact List.forall₂_same.mpr fun pair _ => isCopyIssue_repeatedBlockIssue pair
  · rw [hissues, List.length_map, length_flatMap_copiesIn hgrouping.ne_nil, hgrouping.perm.length_eq]
  · rw [← map_repeated?, ← repeatedGroups_eq]
    exact (stableSort_perm _ _).map _

/-- Two functions of which the second is a copy of the first, with a name replaced and a comment. -/
private def twins : Project := Project.ofFiles {}
  [("a.gd", "func f(a):\n\treturn a\n"), ("b.gd", "\nfunc g(b):\n\treturn b # copy\n")]

theorem duplicates_tellsCopies_twins : twins.IsLoaded ∧
    ∃ findings groups, duplicates.run ⟨twins, { threshold := some 1 }⟩ = .finished findings ∧
      TellsCopies ⟨twins, { threshold := some 1 }⟩ findings groups ∧
      (∃ g ∈ groups, ∃ b ∈ g, ∃ b' ∈ g, b.function = some "f" ∧ b'.function = some "g") ∧
      findings.issues.map (fun i => (i.file, i.line)) = [("b.gd", 2)] := by
  obtain ⟨findings, groups, hrun, htells⟩ := duplicates_tellsCopies (p := twins) (.ofFiles ..)
    { threshold := some 1 }
  refine ⟨.ofFiles .., findings, groups, hrun, htells, ?_, ?_⟩
  · have hfunctions : ∃ s ∈ twins.scripts, ∃ f ∈ s.facts.functions, ∃ s' ∈ twins.scripts,
        ∃ f' ∈ s'.facts.functions, f.name = "f" ∧ f'.name = "g" ∧
        codeLines s f = ["\treturn a".toList] ∧ codeLines s' f' = ["\treturn b # copy".toList] := by
      decide +kernel
    obtain ⟨s, hs, f, hf, s', hs', f', hf', hname, hname', hlines, hlines'⟩ := hfunctions
    have hcopy : Repetition.IsCopy "\treturn a".toList "\treturn b # copy".toList := by
      have hcode : trim (Line.code "\treturn a".toList) = "return".toList ++ ' ' :: (['a'] ++ []) := by
        decide +kernel
      have hcode' : trim (Line.code "\treturn b # copy".toList) =
          "return".toList ++ ' ' :: (['b'] ++ []) := by decide +kernel
      rw [Repetition.IsCopy, hcode, hcode']
      exact .append_left (by simp [Quoting.IsMark]) (by simp [Quoting.IsMark])
        (.rename (by decide +kernel) (by decide +kernel) (by simp) .nil)
    obtain ⟨g, hg, hmem, hmem'⟩ := htells.together s hs f hf s' hs' f' hf' (by rw [hlines]; decide)
      (by rw [IsRenamedCopy, hlines, hlines']; exact .cons hcopy .nil)
    exact ⟨g, hg, _, hmem, _, hmem', congrArg some hname, congrArg some hname'⟩
  · have hfound : ∃ findings, duplicates.run ⟨twins, { threshold := some 1 }⟩ = .finished findings ∧
        findings.issues.map (fun i => (i.file, i.line)) = [("b.gd", 2)] := ⟨_, rfl, by decide +kernel⟩
    obtain ⟨found, hrun', hissues⟩ := hfound
    obtain rfl := Outcome.finished.inj (hrun.symm.trans hrun')
    exact hissues

end GodotLint.Check
