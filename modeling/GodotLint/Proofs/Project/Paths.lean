import GodotLint.Project.Path
import GodotLint.Proofs.Line.Words

/-!
# Paths of resources

A reference is followed segment by segment. What was entered holds only segments that name something
(`forall_foldl_enter`), so what a reference leads to is written in one way (`resolved_isCanonical`).
Segments that lead back to where they start change nothing (`IsDetour.foldl_enter`), and above the root there
is only the root (`foldl_enter_parents`). Both are about targets of one kind: a relative target whose text
comes to name a scheme leads nowhere (`not_forall_resolved_insert`).
-/

namespace GodotLint.Path

open Text

variable {source target path p s : List Char} {ws pre ins post stack : List (List Char)}

/-! ## Segments and their text -/

theorem segments_ne_nil (path : List Char) : segments path ≠ [] := splitWhere_ne_nil _ _

theorem segments_append_slash (s t : List Char) :
    segments (s ++ '/' :: t) = segments s ++ segments t :=
  splitWhere_append_cons (by decide) s t

theorem segments_of_not_mem (h : '/' ∉ s) : segments s = [s] := splitAt_of_not_mem h

/-- No segment has a slash in it. -/
theorem not_mem_of_mem_segments (h : s ∈ segments path) : '/' ∉ s := by
  induction path using induction_cuts '/' with
  | last path hpath =>
      rw [segments_of_not_mem hpath, List.mem_singleton] at h
      rw [h]
      exact hpath
  | piece l rest hl ih =>
      rw [segments_append_slash, segments_of_not_mem hl, List.mem_append, List.mem_singleton] at h
      rcases h with rfl | h
      · exact hl
      · exact ih h

/-- The segments of a path make up the path. -/
theorem join_segments (path : List Char) : join ['/'] (segments path) = path := by
  induction path using induction_cuts '/' with
  | last path hpath => rw [segments_of_not_mem hpath, join]
  | piece l rest hl ih =>
      rw [segments_append_slash, segments_of_not_mem hl, List.singleton_append,
        join_cons (segments_ne_nil rest), ih, List.append_assoc, List.singleton_append]

/-- Segments that are joined are found again. -/
theorem segments_join (hne : ws ≠ []) (h : ∀ w ∈ ws, '/' ∉ w) : segments (join ['/'] ws) = ws := by
  induction ws with
  | nil => exact absurd rfl hne
  | cons w ws ih =>
      obtain ⟨hw, hws⟩ := List.forall_mem_cons.mp h
      by_cases hlast : ws = []
      · subst hlast
        exact segments_of_not_mem hw
      · rw [join_cons hlast, List.append_assoc, List.singleton_append, segments_append_slash,
          segments_of_not_mem hw, ih hlast hws, List.singleton_append]

/-- Segments that are not empty have a text that is not empty. -/
theorem join_eq_nil_iff (h : ∀ w ∈ ws, w ≠ []) : join ['/'] ws = [] ↔ ws = [] := by
  constructor
  · intro hnil
    by_contra hne
    obtain ⟨w, rest, rfl⟩ := List.exists_cons_of_ne_nil hne
    obtain ⟨t, ht⟩ := exists_join_cons ['/'] w rest
    rw [ht, List.append_eq_nil_iff] at hnil
    exact h w List.mem_cons_self hnil.1
  · rintro rfl
    rfl

/-- The text of some segments goes on where more follow. -/
theorem join_prefix (pre post : List (List Char)) : join ['/'] pre <+: join ['/'] (pre ++ post) := by
  induction pre with
  | nil => exact List.nil_prefix
  | cons w pre ih =>
      by_cases hlast : pre = []
      · subst hlast
        obtain ⟨rest, hrest⟩ := exists_join_cons ['/'] w post
        exact ⟨rest, hrest.symm⟩
      · rw [List.cons_append, join_cons hlast, join_cons (by simp [hlast])]
        exact (List.prefix_append_right_inj _).mpr ih

/-! ## One step of the way -/

/-- A segment that names something in the directory that it is met in. -/
structure IsOrdinary (s : List Char) : Prop where
  ne_nil : s ≠ []
  ne_self : s ≠ ['.']
  ne_parent : s ≠ ['.', '.']
  no_slash : '/' ∉ s

instance (s : List Char) : Decidable (IsOrdinary s) :=
  decidable_of_iff (s ≠ [] ∧ s ≠ ['.'] ∧ s ≠ ['.', '.'] ∧ '/' ∉ s)
    ⟨fun h => ⟨h.1, h.2.1, h.2.2.1, h.2.2.2⟩, fun h => ⟨h.1, h.2, h.3, h.4⟩⟩

theorem isIdle_iff : isIdle s = true ↔ s = [] ∨ s = ['.'] := by
  simp [isIdle, List.isEmpty_iff]

/-- A segment without a slash is idle, leads up or names something. -/
theorem isIdle_or_parent_or_isOrdinary (h : '/' ∉ s) :
    isIdle s = true ∨ s = ['.', '.'] ∨ IsOrdinary s := by
  by_cases hidle : isIdle s = true
  · exact .inl hidle
  · rw [isIdle_iff, not_or] at hidle
    by_cases hparent : s = ['.', '.']
    · exact .inr (.inl hparent)
    · exact .inr (.inr ⟨hidle.1, hidle.2, hparent, h⟩)

theorem enter_of_isIdle (h : isIdle s = true) : enter stack s = stack := by
  rw [enter, if_pos h]

@[simp] theorem enter_parent : enter stack ['.', '.'] = stack.drop 1 := rfl

theorem enter_of_isOrdinary (h : IsOrdinary s) : enter stack s = s :: stack := by
  have hidle : ¬ isIdle s = true := by
    rw [isIdle_iff, not_or]
    exact ⟨h.ne_nil, h.ne_self⟩
  rw [enter, if_neg hidle, if_neg (by simpa using h.ne_parent)]

/-- One step keeps that only segments are held that name something. -/
theorem forall_enter (hstack : ∀ w ∈ stack, IsOrdinary w) (hs : '/' ∉ s) :
    ∀ w ∈ enter stack s, IsOrdinary w := by
  rcases isIdle_or_parent_or_isOrdinary hs with hidle | rfl | hordinary
  · rw [enter_of_isIdle hidle]
    exact hstack
  · exact fun w hw => hstack w (List.mem_of_mem_drop hw)
  · rw [enter_of_isOrdinary hordinary]
    exact List.forall_mem_cons.mpr ⟨hordinary, hstack⟩

/-! ## The whole way -/

/-- So does any number of steps. -/
theorem forall_foldl_enter (hstack : ∀ w ∈ stack, IsOrdinary w) (hws : ∀ w ∈ ws, '/' ∉ w) :
    ∀ w ∈ ws.foldl enter stack, IsOrdinary w := by
  induction ws generalizing stack with
  | nil => exact hstack
  | cons s ws ih =>
      obtain ⟨hs, hws⟩ := List.forall_mem_cons.mp hws
      exact ih (forall_enter hstack hs) hws

/-- Segments that name something are all entered. -/
theorem foldl_enter_of_isOrdinary (h : ∀ w ∈ ws, IsOrdinary w) :
    ws.foldl enter stack = ws.reverse ++ stack := by
  induction ws generalizing stack with
  | nil => rfl
  | cons s ws ih =>
      obtain ⟨hs, hws⟩ := List.forall_mem_cons.mp h
      rw [List.foldl_cons, enter_of_isOrdinary hs, ih hws, List.reverse_cons, List.append_assoc,
        List.singleton_append]

/-- Going up leaves one directory after the other, and then stays at the root. -/
theorem foldl_enter_parents (n : Nat) :
    (List.replicate n ['.', '.']).foldl enter stack = stack.drop n := by
  induction n generalizing stack with
  | zero => rfl
  | succ n ih => rw [List.replicate_succ, List.foldl_cons, ih, enter_parent, List.drop_drop, Nat.add_comm]

/-- Segments that lead back to where they start: one that is idle, or one that names something and the way
up. -/
inductive IsDetour : List (List Char) → Prop
  | empty : IsDetour [[]]
  | self : IsDetour [['.']]
  | back {s : List Char} (h : IsOrdinary s) : IsDetour [s, ['.', '.']]

theorem IsDetour.no_slash (h : IsDetour ins) : ∀ w ∈ ins, '/' ∉ w := by
  cases h with
  | empty => simp
  | self => simp
  | back h => simp [h.no_slash]

/-- **A detour leads back**, wherever it is made. -/
theorem IsDetour.foldl_enter (h : IsDetour ins) : ins.foldl enter stack = stack := by
  cases h with
  | empty => rfl
  | self => rfl
  | back h =>
      rw [List.foldl_cons, enter_of_isOrdinary h]
      rfl

/-- A path of segments that name something is written as it is. -/
theorem normalize_join (h : ∀ w ∈ ws, IsOrdinary w) : normalize (join ['/'] ws) = join ['/'] ws := by
  by_cases hne : ws = []
  · subst hne
    rfl
  · rw [normalize, segments_join hne fun w hw => (h w hw).no_slash, foldl_enter_of_isOrdinary h,
      List.append_nil, List.reverse_reverse]

/-! ## Kinds of targets -/

/-- A text names a scheme. -/
def NamesScheme (text : List Char) : Prop := "://".toList <:+: text ∨ "uid:".toList <+: text

instance (text : List Char) : Decidable (NamesScheme text) := inferInstanceAs (Decidable (_ ∨ _))

/-- What precedes the path of a target: `res://` for one that starts at the root of the project, nothing
for one that starts at the directory of its file. The path of the latter names no scheme. -/
inductive IsLead : (lead path : List Char) → Prop
  | root (path : List Char) : IsLead resourcePrefix path
  | relative {path : List Char} (h : ¬ NamesScheme path) : IsLead [] path

/-- What names no scheme names none up to some place. -/
theorem IsLead.upTo {lead : List Char} (h : IsLead lead path) (hstart : s <+: path) :
    IsLead lead s := by
  cases h with
  | root => exact .root s
  | relative h =>
      refine .relative fun hscheme => h ?_
      exact hscheme.imp (fun hmark => hmark.trans hstart.isInfix) fun huid => huid.trans hstart

/-- The directories in which the path of a target starts, innermost first. -/
def origin (source lead : List Char) : List (List Char) :=
  if lead = [] then (segments source).dropLast.foldl enter [] else []

theorem isOrdinary_of_mem_origin {lead : List Char} (h : s ∈ origin source lead) : IsOrdinary s := by
  unfold origin at h
  split_ifs at h
  · refine forall_foldl_enter (by simp) (fun w hw => ?_) s h
    exact not_mem_of_mem_segments (List.mem_of_mem_dropLast hw)
  · exact absurd h List.not_mem_nil

/-- A path below the directory of a file is followed from there. -/
theorem normalize_directory (source path : List Char) :
    normalize (if (directory source).isEmpty then path else directory source ++ '/' :: path) =
      join ['/'] ((segments path).foldl enter (origin source [])).reverse := by
  have hslash : ∀ w ∈ (segments source).dropLast, '/' ∉ w := fun w hw =>
    not_mem_of_mem_segments (List.mem_of_mem_dropLast hw)
  rw [origin, if_pos rfl]
  unfold directory normalize
  by_cases hroot : (segments source).dropLast = []
  · rw [hroot]
    rfl
  · have hsegments := segments_join hroot hslash
    split_ifs with hempty
    · -- a file right below an empty directory is one at the root
      rw [List.isEmpty_iff.mp hempty] at hsegments
      rw [← hsegments]
      rfl
    · rw [segments_append_slash, hsegments, List.foldl_append]

/-- **Where a target leads**: its segments are entered one after the other. -/
theorem resolve?_of_isLead {lead : List Char} (h : IsLead lead path) : resolve? source (lead ++ path) =
    some (join ['/'] ((segments path).foldl enter (origin source lead)).reverse) := by
  cases h with
  | root =>
      rw [resolve?, afterPrefix?_eq_some.mpr rfl]
      rfl
  | relative h =>
      obtain ⟨hmark, -⟩ := not_or.mp h
      have hother : afterPrefix? resourcePrefix path = none := by
        rw [Option.eq_none_iff_forall_ne_some]
        intro rest hrest
        rw [afterPrefix?_eq_some] at hrest
        exact hmark ⟨"res".toList, rest, hrest.symm⟩
      have hnone : ¬ (contains "://".toList path || startsWith "uid:".toList path) = true := by
        rw [Bool.or_eq_true, contains_iff, startsWith, List.isPrefixOf_iff_prefix]
        exact h
      rw [List.nil_append, resolve?, hother]
      simp only [hnone]
      exact congrArg some (normalize_directory source path)

/-- A target that leads somewhere is of one of the two kinds. -/
theorem exists_isLead (h : resolve? source target = some p) :
    ∃ lead path, target = lead ++ path ∧ IsLead lead path := by
  unfold resolve? at h
  split at h
  · rename_i rest hrest
    exact ⟨resourcePrefix, rest, afterPrefix?_eq_some.mp hrest, .root rest⟩
  · split_ifs at h with hscheme
    rw [Bool.or_eq_true, contains_iff, startsWith, List.isPrefixOf_iff_prefix] at hscheme
    exact ⟨[], target, rfl, .relative hscheme⟩

/-! ## What is not changed -/

/-- Other texts of the target `lead ++ path` of a file that lead to `p` as well. -/
structure LeadsTo (source lead path p : List Char) : Prop where
  /-- A detour may be made between any two segments, before the first and behind the last one. -/
  detour : ∀ pre ins post, segments path = pre ++ post → IsDetour ins →
    IsLead lead (join ['/'] (pre ++ ins ++ post)) →
      resolve? source (lead ++ join ['/'] (pre ++ ins ++ post)) = some p
  /-- Where the path has come to the root, the ways up stay there. -/
  surplus : ∀ pre post n, segments path = pre ++ post →
    resolve? source (lead ++ join ['/'] pre) = some [] →
    IsLead lead (join ['/'] (pre ++ List.replicate n ['.', '.'] ++ post)) →
      resolve? source (lead ++ join ['/'] (pre ++ List.replicate n ['.', '.'] ++ post)) = some p
  /-- The root is what is reached by going up as often as there are segments, or more often. -/
  root : ∀ n, (segments p).length ≤ n →
    IsLead lead (join ['/'] (segments path ++ List.replicate n ['.', '.'])) →
      resolve? source (lead ++ join ['/'] (segments path ++ List.replicate n ['.', '.'])) = some []

section leads

variable {lead : List Char}

/-- What is entered from the start of a target names something. -/
theorem isOrdinary_of_mem_foldl_enter (hws : ∀ w ∈ ws, '/' ∉ w) :
    ∀ w ∈ (ws.foldl enter (origin source lead)).reverse, IsOrdinary w := by
  intro w hw
  exact forall_foldl_enter (fun s hs => isOrdinary_of_mem_origin hs) hws w (List.mem_reverse.mp hw)

/-- Where a target leads whose segments are given. -/
theorem resolve?_join (hws : ∀ w ∈ ws, '/' ∉ w) (h : IsLead lead (join ['/'] ws)) :
    resolve? source (lead ++ join ['/'] ws) =
      some (join ['/'] (ws.foldl enter (origin source lead)).reverse) := by
  rw [resolve?_of_isLead h]
  by_cases hne : ws = []
  · -- no segments are written like one that is empty
    subst hne
    rfl
  · rw [segments_join hne hws]

/-- A way that leads to the root has left all that it entered. -/
theorem foldl_enter_eq_nil (hws : ∀ w ∈ ws, '/' ∉ w) (h : IsLead lead (join ['/'] ws))
    (hroot : resolve? source (lead ++ join ['/'] ws) = some []) :
    ws.foldl enter (origin source lead) = [] := by
  rw [resolve?_join hws h, Option.some_inj, join_eq_nil_iff, List.reverse_eq_nil_iff] at hroot
  · exact hroot
  · exact fun w hw => (isOrdinary_of_mem_foldl_enter hws w hw).ne_nil

/-- There are as many directories to leave as the path to a place has segments. -/
theorem length_le_of_segments (h : ∀ w ∈ ws, IsOrdinary w) :
    ws.length ≤ (segments (join ['/'] ws)).length := by
  by_cases hne : ws = []
  · simp [hne]
  · rw [segments_join hne fun w hw => (h w hw).no_slash]

/-- Where a target leads into which some segments are put. -/
theorem resolve?_insert (hpath : segments path = pre ++ post) (hins : ∀ w ∈ ins, '/' ∉ w)
    (h : IsLead lead (join ['/'] (pre ++ ins ++ post))) :
    resolve? source (lead ++ join ['/'] (pre ++ ins ++ post)) = some (join ['/']
      (post.foldl enter (ins.foldl enter (pre.foldl enter (origin source lead)))).reverse) := by
  have hslash : ∀ w ∈ pre ++ post, '/' ∉ w := by
    rw [← hpath]
    exact fun w => not_mem_of_mem_segments
  obtain ⟨hpre, hpost⟩ := List.forall_mem_append.mp hslash
  rw [resolve?_join _ h, List.foldl_append, List.foldl_append]
  exact List.forall_mem_append.mpr ⟨List.forall_mem_append.mpr ⟨hpre, hins⟩, hpost⟩

/-- What is said of a target follows from what its segments enter. -/
theorem leadsTo_of_isLead (h : IsLead lead path) (hp : resolve? source (lead ++ path) = some p) :
    LeadsTo source lead path p := by
  have hslash : ∀ w ∈ segments path, '/' ∉ w := fun w => not_mem_of_mem_segments
  have hparents : ∀ n, ∀ w ∈ List.replicate n ['.', '.'], '/' ∉ w := by
    intro n w hw
    rw [List.eq_of_mem_replicate hw]
    decide
  rw [resolve?_of_isLead h] at hp
  refine ⟨fun pre ins post hpath hins hlead => ?_, fun pre post n hpath hroot hlead => ?_,
    fun n hn hlead => ?_⟩
  · rw [resolve?_insert hpath hins.no_slash hlead, hins.foldl_enter, ← List.foldl_append, ← hpath, hp]
  · have hstart : join ['/'] pre <+: path := by
      rw [← join_segments path, hpath]
      exact join_prefix pre post
    have hpre : ∀ w ∈ pre, '/' ∉ w := fun w hw => hslash w (hpath ▸ List.mem_append_left post hw)
    have hempty := foldl_enter_eq_nil hpre (h.upTo hstart) hroot
    rw [hpath, List.foldl_append, hempty] at hp
    rw [resolve?_insert hpath (hparents n) hlead, hempty, foldl_enter_parents, List.drop_nil, hp]
  · have hlength := length_le_of_segments
      (@isOrdinary_of_mem_foldl_enter source (segments path) lead hslash)
    rw [Option.some_inj.mp hp, List.length_reverse] at hlength
    rw [← List.append_nil (segments path ++ _)] at hlead ⊢
    rw [resolve?_insert (List.append_nil _).symm (hparents n) hlead, foldl_enter_parents,
      List.drop_eq_nil_of_le (hlength.trans hn)]
    rfl

end leads

/-- **References lead to paths in one form**, for every file and every target that leads somewhere. The path
has only segments that name something, it leads to itself from every file, and other texts that make a
detour or go up from the root lead to it as well. -/
theorem resolved_isCanonical (h : resolve? source target = some p) :
    (p = [] ∨ ∀ s ∈ segments p, IsOrdinary s) ∧
    (∀ other, resolve? other (resourcePrefix ++ p) = some p) ∧
    ∃ lead path, target = lead ++ path ∧ IsLead lead path ∧ LeadsTo source lead path p := by
  obtain ⟨lead, path, rfl, hlead⟩ := exists_isLead h
  have hleads := leadsTo_of_isLead hlead h
  have hordinary := @isOrdinary_of_mem_foldl_enter source (segments path) lead
    fun w => not_mem_of_mem_segments
  rw [resolve?_of_isLead hlead, Option.some_inj] at h
  subst h
  refine ⟨?_, fun other => ?_, lead, path, rfl, hlead, hleads⟩
  · by_cases hroot : ((segments path).foldl enter (origin source lead)).reverse = []
    · exact .inl (by rw [hroot]; rfl)
    · rw [segments_join hroot fun w hw => (hordinary w hw).no_slash]
      exact .inr hordinary
  · rw [resolve?, afterPrefix?_eq_some.mpr rfl]
    exact congrArg some (normalize_join hordinary)

theorem resolved_isCanonical_hud :
    resolve? "ui/hud.gd".toList "../sim/x.gd".toList = some "sim/x.gd".toList ∧
    resolve? "main.gd".toList "res://sim/x.gd".toList = some "sim/x.gd".toList ∧
    resolve? "ui/hud.gd".toList "../sim/old/../x.gd".toList = some "sim/x.gd".toList ∧
    resolve? "ui/hud.gd".toList "../../../sim/x.gd".toList = some "sim/x.gd".toList := by
  have hresolve : resolve? "ui/hud.gd".toList "../sim/x.gd".toList = some "sim/x.gd".toList := by
    decide
  obtain ⟨-, hself, lead, path, htarget, hlead, hleads⟩ := resolved_isCanonical hresolve
  cases hlead with
  | root =>
      have hfirst : some '.' = some 'r' := congrArg List.head? htarget
      exact absurd hfirst (by decide)
  | relative =>
      obtain rfl : "../sim/x.gd".toList = path := htarget
      refine ⟨hresolve, hself _, ?_, ?_⟩
      · exact hleads.detour ["..".toList, "sim".toList] ["old".toList, "..".toList] ["x.gd".toList]
          (by decide) (.back (by decide)) (.relative (by decide))
      · exact hleads.surplus ["..".toList] ["sim".toList, "x.gd".toList] 2 (by decide) (by decide)
          (.relative (by decide))

/-- A detour of a relative target may name a scheme by its text: `x:/b.gd` is a path, and `x://b.gd` is none
of the project. -/
theorem not_forall_resolved_insert : ¬ ∀ source target p pre ins post,
    resolve? source target = some p → ¬ resourcePrefix <+: target → segments target = pre ++ post →
      IsDetour ins → resolve? source (join ['/'] (pre ++ ins ++ post)) = some p := by
  intro h
  have hnone := h "a.gd".toList "x:/b.gd".toList "x:/b.gd".toList ["x:".toList] [[]] ["b.gd".toList]
    (by decide) (by decide) (by decide) .empty
  exact absurd hnone (by decide)

end GodotLint.Path
