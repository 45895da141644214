import GodotLint.Check.Loading
import GodotLint.Proofs.Fix.Text
import GodotLint.Proofs.Script.Preload

/-!
# Removing unused preloads twice

A pass removes every declaration of a preloaded constant that no other line mentions. A second pass
finds nothing exactly when each constant that is kept is mentioned on some other line that is kept
(`unusedPreloads_apply_apply`). The lines that go are declarations, so what they mention is told
from their form: a constant can lose its last mention only as the type of a declaration that was
removed, which is how one pass may be too few (`unusedPreloads_changes_again`).
-/

namespace GodotLint.Fixer

open Text Script

/-- Whether the fix keeps the line at an index. -/
def isKept (ls : List (List Char)) (index : Nat) : Bool :=
  !((Script.unusedPreloads ls).map (·.1)).contains index

/-- The lines that the fix keeps, with their indices. -/
def keptLines (ls : List (List Char)) : List (List Char × Nat) :=
  ls.zipIdx.filter fun x => isKept ls x.2

/-- Every preloaded constant of some lines is mentioned on another one of them. -/
def AllUsed (xs : List (List Char × Nat)) : Prop :=
  ∀ x ∈ xs, ∀ name, preloadedName? x.1 = some name →
    ∃ y ∈ xs, y.2 ≠ x.2 ∧ mentionsWord name y.1 = true

variable {ls : List (List Char)}

/-! ## Unused constants -/

theorem isUsedElsewhere_iff {index : Nat} {name : List Char} :
    isUsedElsewhere ls index name = true ↔
      ∃ y ∈ ls.zipIdx, y.2 ≠ index ∧ mentionsWord name y.1 = true := by
  simp [isUsedElsewhere, List.any_eq_true]

/-- What is reported as unused is the name that a line declares and no other line mentions. -/
theorem mem_unusedPreloads {u : Nat × String} : u ∈ Script.unusedPreloads ls ↔
    ∃ x ∈ ls.zipIdx, ∃ name, preloadedName? x.1 = some name ∧
      isUsedElsewhere ls x.2 name = false ∧ u = (x.2, str name) := by
  rw [Script.unusedPreloads, List.mem_filterMap]
  refine exists_congr fun x => and_congr_right fun _ => ?_
  rw [Option.bind_eq_some_iff]
  refine exists_congr fun name => and_congr_right fun _ => ?_
  cases isUsedElsewhere ls x.2 name <;> simp [eq_comm]

/-- No constant is unused exactly when all are used. -/
theorem unusedPreloads_eq_nil_iff : Script.unusedPreloads ls = [] ↔ AllUsed ls.zipIdx := by
  rw [List.eq_nil_iff_forall_not_mem]
  constructor
  · intro h x hx name hname
    rw [← isUsedElsewhere_iff]
    by_contra hunused
    exact h _ (mem_unusedPreloads.mpr ⟨x, hx, name, hname, by simpa using hunused, rfl⟩)
  · intro h u hu
    obtain ⟨x, hx, name, hname, hunused, -⟩ := mem_unusedPreloads.mp hu
    rw [isUsedElsewhere_iff.mpr (h x hx name hname)] at hunused
    cases hunused

/-- A line is removed exactly when it declares a constant that no other line mentions. -/
theorem isKept_eq_false_iff {x : List Char × Nat} (hx : x ∈ ls.zipIdx) : isKept ls x.2 = false ↔
    ∃ name, preloadedName? x.1 = some name ∧ isUsedElsewhere ls x.2 name = false := by
  rw [isKept, Bool.not_eq_false', List.contains_iff_mem, List.mem_map]
  constructor
  · rintro ⟨u, hu, hindex⟩
    obtain ⟨y, hy, name, hname, hunused, rfl⟩ := mem_unusedPreloads.mp hu
    have hline : y.1 = x.1 := by
      have hy' := List.mem_zipIdx_iff_getElem?.mp hy
      have hx' := List.mem_zipIdx_iff_getElem?.mp hx
      simp only at hindex
      rw [hindex, hx'] at hy'
      exact (Option.some.inj hy').symm
    exact ⟨name, hline ▸ hname, hindex ▸ hunused⟩
  · rintro ⟨name, hname, hunused⟩
    exact ⟨_, mem_unusedPreloads.mpr ⟨x, hx, name, hname, hunused, rfl⟩, rfl⟩

/-! ## Lines told apart by numbers -/

/-- Which numbers tell the lines apart does not matter. -/
theorem allUsed_zipIdx_iff {xs : List (List Char × Nat)} (hxs : (xs.map (·.2)).Nodup) :
    AllUsed (xs.map (·.1)).zipIdx ↔ AllUsed xs := by
  have hget : ∀ {x : List Char × Nat}, x ∈ (xs.map (·.1)).zipIdx ↔
      ∃ n, xs[x.2]? = some (x.1, n) := by
    intro x
    rw [List.mem_zipIdx_iff_getElem?, List.getElem?_map, Option.map_eq_some_iff]
    constructor
    · rintro ⟨y, hy, hline⟩
      exact ⟨y.2, hline ▸ hy⟩
    · rintro ⟨n, hn⟩
      exact ⟨_, hn, rfl⟩
  -- two places hold the same number exactly when they are one place
  have hne : ∀ {i j : Nat} {x y : List Char × Nat}, xs[i]? = some x → xs[j]? = some y →
      (j ≠ i ↔ y.2 ≠ x.2) := by
    intro i j x y hx hy
    obtain ⟨hi, hx⟩ := List.getElem?_eq_some_iff.mp hx
    obtain ⟨hj, hy⟩ := List.getElem?_eq_some_iff.mp hy
    have hinj := @List.Nodup.getElem_inj_iff _ _ hxs j (by simpa using hj) i (by simpa using hi)
    simp only [List.getElem_map, hx, hy] at hinj
    exact not_congr hinj.symm
  constructor
  · intro h x hx name hname
    obtain ⟨i, hi⟩ := List.mem_iff_getElem?.mp hx
    obtain ⟨y, hy, hyx, hmentions⟩ := h (x.1, i) (hget.mpr ⟨x.2, hi⟩) name hname
    obtain ⟨n, hn⟩ := hget.mp hy
    exact ⟨(y.1, n), List.mem_of_getElem? hn, (hne hi hn).mp hyx, hmentions⟩
  · intro h x hx name hname
    obtain ⟨n, hn⟩ := hget.mp hx
    obtain ⟨y, hy, hyx, hmentions⟩ := h (x.1, n) (List.mem_of_getElem? hn) name hname
    obtain ⟨j, hj⟩ := List.mem_iff_getElem?.mp hy
    exact ⟨(y.1, j), hget.mpr ⟨y.2, hj⟩, (hne hn hj).mpr hyx, hmentions⟩

/-- The empty line declares nothing. -/
theorem preloadedName?_nil : preloadedName? [] = none := by decide

/-- The empty line mentions no name. -/
theorem mentionsWord_nil {line name : List Char} (h : preloadedName? line = some name) :
    mentionsWord name [] = false := by
  obtain ⟨d, -, rfl⟩ := exists_declaration_of_preloadedName? h
  have hne := ne_nil_of_isIdent d.isIdent
  simp [mentionsWord, Line.code, Line.cutComment, Line.mask, Line.maskFrom, Line.containsWord,
    Line.findWord, Line.searchWord, hne]

/-- An empty line at the end makes no difference. -/
theorem allUsed_append_nil {xs : List (List Char × Nat)} {n : Nat} :
    AllUsed (xs ++ [([], n)]) ↔ AllUsed xs := by
  constructor
  · intro h x hx name hname
    obtain ⟨y, hy, hne, hmentions⟩ := h x (List.mem_append_left _ hx) name hname
    rcases List.mem_append.mp hy with hy | hy
    · exact ⟨y, hy, hne, hmentions⟩
    · rw [List.mem_singleton.mp hy, mentionsWord_nil hname] at hmentions
      cases hmentions
  · intro h x hx name hname
    rcases List.mem_append.mp hx with hx | hx
    · obtain ⟨y, hy, hused⟩ := h x hx name hname
      exact ⟨y, List.mem_append_left _ hy, hused⟩
    · rw [List.mem_singleton.mp hx, preloadedName?_nil] at hname
      cases hname

/-- Reading the lines back changes nothing about what is unused. -/
theorem unusedPreloads_reread_eq_nil_iff (ended : Bool) :
    Script.unusedPreloads (reread ended ls) = [] ↔ Script.unusedPreloads ls = [] := by
  rw [unusedPreloads_eq_nil_iff, unusedPreloads_eq_nil_iff, reread]
  split_ifs with hended hnil hlast
  · subst hnil
    exact @allUsed_append_nil [] 0
  · rfl
  · obtain ⟨ms, rfl⟩ := List.getLast?_eq_some_iff.mp hlast
    rw [List.dropLast_concat, List.zipIdx_append]
    exact allUsed_append_nil.symm
  · rfl

/-! ## The fixed text -/

theorem revise_unusedPreloads (ls : List (List Char)) : unusedPreloads.revise ls =
    ls.zipIdx.map fun x => if isKept ls x.2 then some x.1 else none := by
  refine List.map_congr_left fun x _ => ?_
  simp only [isKept]
  split_ifs <;> simp_all

/-- A pass changes nothing exactly when no constant is unused. -/
theorem changes_unusedPreloads_eq_nil_iff {text : List Char} :
    (unusedPreloads.apply text).changes = [] ↔ Script.unusedPreloads (lines text) = [] := by
  have hzip : (lines text).zip (unusedPreloads.revise (lines text)) =
      (lines text).zipIdx.map fun x => (x.1, if isKept (lines text) x.2 then some x.1 else none) := by
    rw [← List.zip_map', ← revise_unusedPreloads, List.zipIdx_map_fst]
  rw [changes_eq_nil_iff, hzip, List.forall_mem_map, List.eq_nil_iff_forall_not_mem]
  constructor
  · intro h u hu
    obtain ⟨x, hx, name, hname, hunused, -⟩ := mem_unusedPreloads.mp hu
    have := h x hx
    rw [(isKept_eq_false_iff hx).mpr ⟨name, hname, hunused⟩] at this
    cases this
  · intro h x hx
    have hkept : isKept (lines text) x.2 = true := by
      rw [← Bool.not_eq_false, isKept_eq_false_iff hx]
      rintro ⟨name, hname, hunused⟩
      exact h _ (mem_unusedPreloads.mpr ⟨x, hx, name, hname, hunused, rfl⟩)
    simp only [hkept, if_true]

/-- The lines of the fixed text are those that are kept, as they are read back. -/
theorem lines_unusedPreloads (text : List Char) : lines (unusedPreloads.apply text).text =
    reread (endsWithLineFeed text) ((keptLines (lines text)).map (·.1)) := by
  by_cases h : (unusedPreloads.apply text).changes = []
  · have hkept : keptLines (lines text) = (lines text).zipIdx := by
      rw [changes_unusedPreloads_eq_nil_iff] at h
      refine List.filter_eq_self.mpr fun x _ => ?_
      simp [isKept, h]
    rw [apply_eq_self_iff.mpr h, hkept, List.zipIdx_map_fst, reread_lines]
  · have hkept : (unusedPreloads.revise (lines text)).filterMap (fun line => line) =
        (keptLines (lines text)).map (·.1) := by
      rw [revise_unusedPreloads, List.filterMap_map, keptLines, ← List.filterMap_eq_map,
        List.filterMap_filter]
      rfl
    have hsublist : ((keptLines (lines text)).map (·.1)).Sublist (lines text) := by
      have := (List.filter_sublist (p := fun x => isKept (lines text) x.2)
        (l := (lines text).zipIdx)).map (·.1)
      rwa [List.zipIdx_map_fst] at this
    rw [text_apply h, hkept, ((laid_lineEnd text).of_sublist hsublist).lines_eq]

/-! ## A second pass -/

theorem nodup_keptLines (ls : List (List Char)) : ((keptLines ls).map (·.2)).Nodup := by
  have hsublist := (List.filter_sublist (p := fun x => isKept ls x.2) (l := ls.zipIdx)).map (·.2)
  refine List.Nodup.sublist hsublist ?_
  rw [List.zipIdx_map_snd]
  exact List.nodup_range'

/-- After a pass no constant is unused exactly when those that are kept are mentioned on lines that
are kept. -/
theorem unusedPreloads_lines_apply_eq_nil_iff (text : List Char) :
    Script.unusedPreloads (lines (unusedPreloads.apply text).text) = [] ↔
      AllUsed (keptLines (lines text)) := by
  rw [lines_unusedPreloads, unusedPreloads_reread_eq_nil_iff, unusedPreloads_eq_nil_iff,
    allUsed_zipIdx_iff (nodup_keptLines _)]

/-- A constant that is kept and has lost its mentions is the type of a removed declaration, or is
called as one of the words that every declaration has. -/
theorem exists_declaration_of_not_allUsed (h : ¬ AllUsed (keptLines ls)) :
    ∃ x ∈ keptLines ls, ∃ y ∈ ls.zipIdx, isKept ls y.2 = false ∧
      ∃ name, ∃ d : PreloadDeclaration, preloadedName? x.1 = some name ∧
        trimEnd (Line.code y.1) = d.text ∧ name ∈ d.otherWords := by
  rw [AllUsed] at h
  push Not at h
  obtain ⟨x, hx, name, hname, hlost⟩ := h
  obtain ⟨hx', hkept⟩ := List.mem_filter.mp hx
  -- it was kept because of some line, which is then a removed declaration
  have hused : isUsedElsewhere ls x.2 name = true := by
    by_contra hunused
    rw [(isKept_eq_false_iff hx').mpr ⟨name, hname, by simpa using hunused⟩] at hkept
    cases hkept
  obtain ⟨y, hy, hyx, hmentions⟩ := isUsedElsewhere_iff.mp hused
  have hremoved : isKept ls y.2 = false := by
    by_contra hkept'
    have := hlost y (List.mem_filter.mpr ⟨hy, by simpa using hkept'⟩) hyx
    exact this hmentions
  obtain ⟨name', hname', hunused⟩ := (isKept_eq_false_iff hy).mp hremoved
  obtain ⟨d, hd, rfl⟩ := exists_declaration_of_preloadedName? hname'
  obtain ⟨e, he, rfl⟩ := exists_declaration_of_preloadedName? hname
  refine ⟨x, hx, y, hy, hremoved, e.name, d, hname, hd, ?_⟩
  refine (d.eq_name_or_mem_otherWords hd e.isIdent hmentions).resolve_left fun heq => ?_
  have : isUsedElsewhere ls y.2 d.name = true :=
    isUsedElsewhere_iff.mpr ⟨x, hx', hyx.symm, heq ▸ e.mentionsWord_name he⟩
  rw [hunused] at this
  cases this

/-- **A second pass** of the fix of unused preloads changes nothing exactly when every constant that
the first has kept is mentioned on another line that it has kept. Then the check of loading reports
no unused preload either. Else a removed declaration names a constant that was kept. -/
theorem unusedPreloads_apply_apply (text : List Char) :
    (unusedPreloads.apply (unusedPreloads.apply text).text =
        ⟨(unusedPreloads.apply text).text, []⟩ ↔ AllUsed (keptLines (lines text))) ∧
    (∀ file, (Script.unusedPreloads (lines (unusedPreloads.apply text).text)).map
        (Check.unusedPreloadIssue file) = [] ↔ AllUsed (keptLines (lines text))) ∧
    (AllUsed (keptLines (lines text)) ∨
      ∃ x ∈ keptLines (lines text), ∃ y ∈ (lines text).zipIdx, isKept (lines text) y.2 = false ∧
        ∃ name, ∃ d : PreloadDeclaration, preloadedName? x.1 = some name ∧
          trimEnd (Line.code y.1) = d.text ∧ name ∈ d.otherWords) := by
  refine ⟨?_, fun file => ?_, ?_⟩
  · rw [apply_eq_self_iff, changes_unusedPreloads_eq_nil_iff, unusedPreloads_lines_apply_eq_nil_iff]
  · rw [List.map_eq_nil_iff, unusedPreloads_lines_apply_eq_nil_iff]
  · exact or_iff_not_imp_left.mpr exists_declaration_of_not_allUsed

/-- A constant that is mentioned only as the type of an unused one goes with a second pass. -/
theorem unusedPreloads_changes_again :
    (unusedPreloads.apply
      "const A = preload(\"a.gd\")\nconst B: A = preload(\"b.gd\")\n".toList).text =
        "const A = preload(\"a.gd\")\n".toList ∧
    (unusedPreloads.apply "const A = preload(\"a.gd\")\n".toList).text = "\n".toList := by
  decide +kernel

end GodotLint.Fixer
