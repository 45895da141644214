import GodotLint.Proofs.Pattern.Front
import GodotLint.Proofs.Pattern.Lockstep

/-!
# The same text behind different beginnings

A search looks back no further than one character, and asks of what is behind it only whether a word
ends there and whether the text starts there. Behind two beginnings that agree in this (`AlikeBehind`)
it takes the same way through the same text, whatever the pattern (`follows_run`): it finds the same
pieces, each as far from the beginning of its text as the other one is from its own (`SameMatch`). So
a pattern that accepts nothing before the characters of the beginnings has the same matches in both
texts (`forall₂_findAll_of_front`), and what is read from the matches is the same
(`filterMap_of_forall₂`).
-/

namespace GodotLint.Pattern

open Text

/-! ## Places behind two beginnings -/

/-- Two beginnings that a search behind them cannot tell apart. -/
structure AlikeBehind (a a' : List Char) : Prop where
  edge : SameEdge a a'
  nil_iff : a = [] ↔ a' = []

/-- The same piece, as far behind each of two beginnings. -/
structure SameSpan (a a' : List Char) (s s' : Span) : Prop where
  chars : s.chars = s'.chars
  start : ∃ n, s.start = width a + n ∧ s'.start = width a' + n

/-- The same pieces are remembered on both sides; a group of the given indices may hold the beginning
itself and a piece behind it. -/
inductive SameGroups (a a' : List Char) (indices : List Nat) :
    List (Nat × Span) → List (Nat × Span) → Prop
  | nil : SameGroups a a' indices [] []
  | piece {index : Nat} {s s' : Span} {gs gs' : List (Nat × Span)} (span : SameSpan a a' s s')
      (later : SameGroups a a' indices gs gs') :
      SameGroups a a' indices ((index, s) :: gs) ((index, s') :: gs')
  | start {index : Nat} {w : List Char} {gs gs' : List (Nat × Span)} (mem : index ∈ indices)
      (later : SameGroups a a' indices gs gs') :
      SameGroups a a' indices ((index, ⟨0, a ++ w⟩) :: gs) ((index, ⟨0, a' ++ w⟩) :: gs')

/-- Two searches in the text `s` behind two beginnings that have come to the same place. -/
inductive Behind (a a' s : List Char) (indices : List Nat) : Progress → Progress → Prop
  | of {w rest : List Char} {gs gs' : List (Nat × Span)} (text : s = w ++ rest)
      (groups : SameGroups a a' indices gs gs') :
      Behind a a' s indices (.at (a ++ w) rest gs) (.at (a' ++ w) rest gs')

/-- A step takes two searches along: they succeed alike if everything after it does. -/
def Follows (a a' s : List Char) (indices : List Nat)
    (step : Progress → Continuation → Option Progress) : Prop :=
  ∀ (T : Progress → Progress → Prop) (p p' : Progress) (k k' : Continuation),
    Behind a a' s indices p p' →
    (∀ q q', Behind a a' s indices q q' → Option.Rel T (k q) (k' q')) →
    Option.Rel T (step p k) (step p' k')

variable {a a' s : List Char} {is : List Nat} {p q : Pattern}

/-! ## Parts of a pattern -/

theorem follows_consume (P : Char → Bool) : Follows a a' s is (consume P) := by
  rintro T _ _ k k' ⟨htext, hgroups⟩ hk
  rename_i w rest gs gs'
  cases rest with
  | nil =>
      rw [consume_eq_none (by simp), consume_eq_none (by simp)]
      exact .none
  | cons x rest =>
      rw [consume_at_cons, consume_at_cons]
      split_ifs
      · rw [List.append_assoc, List.append_assoc]
        exact hk _ _ (.of (by simpa using htext) hgroups)
      · exact .none

/-- What is asked of the places is the same on both sides. -/
theorem follows_check (holds : Progress → Bool)
    (h : ∀ p p', Behind a a' s is p p' → holds p = holds p') :
    Follows a a' s is fun p k => check (holds p) p k := by
  intro T p p' k k' hp hk
  show Option.Rel T (check (holds p) p k) (check (holds p') p' k')
  rw [check, check, h p p' hp]
  split_ifs
  · exact hk p p' hp
  · exact .none

/-- Whether a search has consumed between two places is the same on both sides. -/
theorem Behind.offset_lt_iff {b b' c c' : Progress} (hb : Behind a a' s is b b')
    (hc : Behind a a' s is c c') :
    b.cursor.offset < c.cursor.offset ↔ b'.cursor.offset < c'.cursor.offset := by
  obtain ⟨-, -⟩ := hb
  obtain ⟨-, -⟩ := hc
  simp only [Progress.at, Cursor.between_offset, width_append]
  omega

section repetitions

variable {first second step again : Progress → Continuation → Option Progress}

theorem follows_stay : Follows a a' s is fun p k => k p := fun _ p p' _ _ hp hk => hk p p' hp

theorem Follows.or (hfirst : Follows a a' s is first) (hsecond : Follows a a' s is second) :
    Follows a a' s is fun p k => (first p k).or (second p k) := fun T p p' k k' hp hk =>
  rel_or (hfirst T p p' k k' hp hk) (hsecond T p p' k k' hp hk)

/-- Two tries consume on both sides or on none. -/
theorem Follows.goOn (hstep : Follows a a' s is step) (hagain : Follows a a' s is again) :
    Follows a a' s is (goOn step again) := by
  intro T p p' k k' hp hk
  refine hstep T p p' _ _ hp fun t t' ht => ?_
  simp only [hp.offset_lt_iff ht]
  split_ifs
  · exact hagain T t t' k k' ht hk
  · exact .none

theorem Follows.repeatGreedy (h : Follows a a' s is step) (count : Nat) :
    Follows a a' s is fun p k => repeatGreedy step k count p := by
  induction count with
  | zero => exact follows_stay
  | succ count ih =>
      simp only [repeatGreedy_succ]
      exact (h.goOn ih).or follows_stay

theorem Follows.repeatLazy (h : Follows a a' s is step) (count : Nat) :
    Follows a a' s is fun p k => repeatLazy step k count p := by
  induction count with
  | zero => exact follows_stay
  | succ count ih =>
      simp only [repeatLazy_succ]
      exact follows_stay.or (h.goOn ih)

end repetitions

/-- As much text is left on both sides. -/
theorem Behind.rest_eq {b b' : Progress} (h : Behind a a' s is b b') :
    b.cursor.rest = b'.cursor.rest := by
  obtain ⟨-, -⟩ := h
  rfl

/-- **A search takes the same way behind two beginnings**, by induction over the pattern. -/
theorem follows_run (h : AlikeBehind a a') (p : Pattern) : Follows a a' s is p.run := by
  induction p with
  | empty => exact follows_stay
  | char c => exact follows_consume _
  | any => exact follows_consume _
  | oneOf items => exact follows_consume _
  | noneOf items => exact follows_consume _
  | atStart =>
      refine follows_check (fun p => p.cursor.offset == 0) ?_
      rintro _ _ ⟨-, -⟩
      rename_i w rest gs gs'
      rw [Bool.eq_iff_iff, beq_iff_eq, beq_iff_eq]
      simp only [Progress.at, Cursor.between_offset, width_eq_zero, List.append_eq_nil_iff, h.nil_iff]
  | atEnd =>
      refine follows_check (fun p => p.cursor.rest.isEmpty) fun p p' hp => ?_
      rw [hp.rest_eq]
  | wordEdge =>
      refine follows_check (fun p => p.cursor.isWordEdge) ?_
      rintro _ _ ⟨-, -⟩
      rename_i w rest gs gs'
      have hedge := h.edge.append w
      unfold SameEdge at hedge
      simp only [Progress.at, Cursor.isWordEdge, Cursor.between_previous, Cursor.between_rest, hedge]
  | seq p q ihp ihq =>
      exact fun T _ _ _ _ hp hk => ihp T _ _ _ _ hp fun _ _ hp' => ihq T _ _ _ _ hp' hk
  | alt p q ihp ihq =>
      intro T b b' k k' hb hk
      rw [run_alt, run_alt]
      exact ihp.or ihq T b b' k k' hb hk
  | opt p ihp =>
      intro T b b' k k' hb hk
      rw [run_opt, run_opt]
      exact ihp.or follows_stay T b b' k k' hb hk
  | star p ihp =>
      intro T b b' k k' hb hk
      change Option.Rel T (repeatGreedy p.run k b.cursor.rest.length b)
        (repeatGreedy p.run k' b'.cursor.rest.length b')
      rw [hb.rest_eq]
      exact ihp.repeatGreedy _ T b b' k k' hb hk
  | plus p ihp =>
      intro T b b' k k' hb hk
      refine ihp T b b' _ _ hb fun t t' ht => ?_
      rw [ht.rest_eq]
      exact ihp.repeatGreedy _ T t t' k k' ht hk
  | lazyPlus p ihp =>
      intro T b b' k k' hb hk
      refine ihp T b b' _ _ hb fun t t' ht => ?_
      rw [ht.rest_eq]
      exact ihp.repeatLazy _ T t t' k k' ht hk
  | group index p ihp =>
      intro T b b' k k' hb hk
      refine ihp T b b' _ _ hb fun t t' ht => hk _ _ ?_
      obtain ⟨-, -⟩ := hb
      obtain ⟨htext, hgroups⟩ := ht
      exact .of htext (.piece ⟨rfl, _, width_append _ _, width_append _ _⟩ hgroups)

/-! ## Matches -/

/-- Two matches that end at the same place behind the beginnings and remember the same pieces. -/
structure MatchBehind (a a' : List Char) (indices : List Nat) (m m' : Match) : Prop where
  groups : SameGroups a a' indices m.groups m'.groups
  after : ∃ w rest, m.after = .between (a ++ w) rest ∧ m'.after = .between (a' ++ w) rest

/-- Two matches of the same piece behind the beginnings. -/
structure SameMatch (a a' : List Char) (m m' : Match) : Prop extends MatchBehind a a' [] m m' where
  whole : SameSpan a a' m.whole m'.whole

/-- The match at a place is the same on both sides. -/
theorem rel_matchAt? (h : AlikeBehind a a') (p : Pattern) (u post : List Char) :
    Option.Rel (SameMatch a a') (p.matchAt? (.between (a ++ u) post))
      (p.matchAt? (.between (a' ++ u) post)) := by
  have hstart : Behind a a' (u ++ post) [] (.at (a ++ u) post []) (.at (a' ++ u) post []) :=
    .of rfl .nil
  have hrun := follows_run h p (Behind a a' (u ++ post) []) _ _ some some hstart fun _ _ => .some
  unfold matchAt?
  change Option.Rel _ ((p.run (.at (a ++ u) post []) some).map _)
    ((p.run (.at (a' ++ u) post []) some).map _)
  revert hrun
  generalize p.run (.at (a ++ u) post []) some = r
  generalize p.run (.at (a' ++ u) post []) some = r'
  rintro (⟨⟨htext, hgroups⟩⟩ | _)
  · exact .some ⟨⟨hgroups, _, _, rfl, rfl⟩, rfl, _, width_append _ _, width_append _ _⟩
  · exact .none

/-- So is the first match from a place on, by induction over the text. -/
theorem rel_findFrom? (h : AlikeBehind a a') (p : Pattern) (u post : List Char) :
    Option.Rel (SameMatch a a') (p.findFrom? (a ++ u).getLast? (width (a ++ u)) post)
      (p.findFrom? (a' ++ u).getLast? (width (a' ++ u)) post) := by
  induction post generalizing u with
  | nil => exact rel_matchAt? h p u []
  | cons x post ih =>
      rw [findFrom?_cons, findFrom?_cons, List.append_assoc, List.append_assoc]
      exact rel_or (rel_matchAt? h p u (x :: post)) (ih (u ++ [x]))

/-- A match of a pattern that consumes is not empty, and less text is left behind it. -/
theorem start_lt_stop_of_find (hp : Consumes p.Accepts) (pre : List Char) {post : List Char} {m : Match}
    (h : p.findFrom? pre.getLast? (width pre) post = some m) :
    m.start < m.stop ∧ m.after.rest.length < post.length := by
  obtain ⟨gap, w, rest, gs, rfl, rfl, hfirst⟩ := findFrom?_eq_some h
  exact hfirst.start_lt_stop hp

theorem exists_of_rel {α : Type} {R : α → α → Prop} {o o' : Option α} (h : Option.Rel R o o') :
    (∃ x x', o = some x ∧ o' = some x' ∧ R x x') ∨ o = none ∧ o' = none := by
  cases h with
  | some h => exact .inl ⟨_, _, rfl, rfl, h⟩
  | none => exact .inr ⟨rfl, rfl⟩

/-- All matches from a place on are the same on both sides, however many tries are left. -/
theorem forall₂_findAllFrom (h : AlikeBehind a a') (hp : Consumes p.Accepts) (n n' : Nat)
    (last last' : Option Nat) (u post : List Char) (hn : post.length < n) (hn' : post.length < n') :
    List.Forall₂ (SameMatch a a') (p.findAllFrom n last (.between (a ++ u) post))
      (p.findAllFrom n' last' (.between (a' ++ u) post)) := by
  induction n generalizing n' last last' u post with
  | zero => omega
  | succ n ih =>
      obtain ⟨n', rfl⟩ := Nat.exists_eq_succ_of_ne_zero (Nat.ne_zero_of_lt hn')
      rcases exists_of_rel (rel_findFrom? h p u post) with ⟨m, m', hm, hm', hsame⟩ | ⟨hm, hm'⟩
      · obtain ⟨hlt, hless⟩ := start_lt_stop_of_find hp _ hm
        obtain ⟨hlt', -⟩ := start_lt_stop_of_find hp _ hm'
        obtain ⟨w, rest, hafter, hafter'⟩ := hsame.after
        rw [hafter, Cursor.between_rest] at hless
        rw [findAllFrom_of_some hm hlt, findAllFrom_of_some hm' hlt', hafter, hafter']
        exact .cons hsame (ih n' _ _ w rest (by omega) (by omega))
      · rw [findAllFrom_of_none hm, findAllFrom_of_none hm']
        exact .nil

/-- All matches agree if the first does and the search goes on at the same place behind it. -/
theorem forall₂_findAll {R : Match → Match → Prop} (h : AlikeBehind a a') (hp : Consumes p.Accepts)
    {t t' : List Char} (hR : ∀ m m', SameMatch a a' m m' → R m m')
    (hafter : ∀ m m', R m m' →
      ∃ w rest, m.after = .between (a ++ w) rest ∧ m'.after = .between (a' ++ w) rest)
    (hfind : Option.Rel R (p.find? t) (p.find? t')) : List.Forall₂ R (p.findAll t) (p.findAll t') := by
  unfold findAll
  rcases exists_of_rel hfind with ⟨m, m', hm, hm', hsame⟩ | ⟨hm, hm'⟩
  · obtain ⟨hlt, hless⟩ := start_lt_stop_of_find hp [] hm
    obtain ⟨hlt', hless'⟩ := start_lt_stop_of_find hp [] hm'
    obtain ⟨w, rest, hw, hw'⟩ := hafter m m' hsame
    rw [hw, Cursor.between_rest] at hless
    rw [hw', Cursor.between_rest] at hless'
    rw [findAllFrom_of_some (c := .ofText t) hm hlt, findAllFrom_of_some (c := .ofText t') hm' hlt', hw,
      hw']
    exact .cons hsame ((forall₂_findAllFrom h hp _ _ _ _ w rest hless hless').imp hR)
  · rw [findAllFrom_of_none (c := .ofText t) hm, findAllFrom_of_none (c := .ofText t') hm']
    exact .nil

/-! ## Patterns that do not reach into the beginnings -/

/-- The first match is the same if the pattern accepts nothing before the characters of the
beginnings. -/
theorem rel_find?_of_front (h : AlikeBehind a a') (ha : ∀ x ∈ a, p.front x = .nothing)
    (ha' : ∀ x ∈ a', p.front x = .nothing) (s : List Char) :
    Option.Rel (SameMatch a a') (p.find? (a ++ s)) (p.find? (a' ++ s)) := by
  have hskip := findFrom?_append_of_front [] s ha
  have hskip' := findFrom?_append_of_front [] s ha'
  have hrel := rel_findFrom? h p [] s
  rw [List.append_nil, List.append_nil] at hrel
  unfold find?
  change Option.Rel _ (p.findFrom? [].getLast? (width []) (a ++ s))
    (p.findFrom? [].getLast? (width []) (a' ++ s))
  rw [hskip, hskip']
  exact hrel

/-- **All matches are the same** if the pattern accepts nothing before the characters of the beginnings.
-/
theorem forall₂_findAll_of_front (h : AlikeBehind a a') (hp : p.isConsuming = true)
    (ha : ∀ x ∈ a, p.front x = .nothing) (ha' : ∀ x ∈ a', p.front x = .nothing) (s : List Char) :
    List.Forall₂ (SameMatch a a') (p.findAll (a ++ s)) (p.findAll (a' ++ s)) :=
  forall₂_findAll h (consumes_of_isConsuming hp) (fun _ _ => id) (fun _ _ h => h.after)
    (rel_find?_of_front h ha ha' s)

/-! ## What is read from matches -/

theorem isSome_of_rel {α : Type} {R : α → α → Prop} {o o' : Option α} (h : Option.Rel R o o') :
    o.isSome = o'.isSome := by
  cases h <;> rfl

theorem map_of_rel {α β : Type} {R : α → α → Prop} {o o' : Option α} {f g : α → β}
    (h : Option.Rel R o o') (hf : ∀ x x', R x x' → f x = g x') : o.map f = o'.map g := by
  cases h with
  | some h => exact congrArg some (hf _ _ h)
  | none => rfl

theorem bind_of_rel {α β : Type} {R : α → α → Prop} {o o' : Option α} {f g : α → Option β}
    (h : Option.Rel R o o') (hf : ∀ x x', R x x' → f x = g x') : o.bind f = o'.bind g := by
  cases h with
  | some h => exact hf _ _ h
  | none => rfl

theorem rel_bind {α β : Type} {R : α → α → Prop} {S : β → β → Prop} {o o' : Option α}
    {f g : α → Option β} (h : Option.Rel R o o') (hf : ∀ x x', R x x' → Option.Rel S (f x) (g x')) :
    Option.Rel S (o.bind f) (o'.bind g) := by
  cases h with
  | some h => exact hf _ _ h
  | none => exact .none

theorem rel_unless {α : Type} {R : α → α → Prop} {b b' : Bool} {x x' : α} (hb : b = b') (hx : R x x') :
    Option.Rel R (if b = true then none else some x) (if b' = true then none else some x') := by
  subst hb
  split_ifs
  · exact .none
  · exact .some hx

theorem filterMap_of_forall₂ {α β : Type} {R : α → α → Prop} {l l' : List α} {f g : α → Option β}
    (h : List.Forall₂ R l l') (hf : ∀ x x', R x x' → f x = g x') : l.filterMap f = l'.filterMap g := by
  induction h with
  | nil => rfl
  | cons hx _ ih => rw [List.filterMap_cons, List.filterMap_cons, hf _ _ hx, ih]

theorem flatMap_of_forall₂ {α β : Type} {R : α → α → Prop} {l l' : List α} {f g : α → List β}
    (h : List.Forall₂ R l l') (hf : ∀ x x', R x x' → f x = g x') : l.flatMap f = l'.flatMap g := by
  induction h with
  | nil => rfl
  | cons hx _ ih => rw [List.flatMap_cons, List.flatMap_cons, hf _ _ hx, ih]

theorem map_of_forall₂ {α β : Type} {R : α → α → Prop} {l l' : List α} {f g : α → β}
    (h : List.Forall₂ R l l') (hf : ∀ x x', R x x' → f x = g x') : l.map f = l'.map g := by
  induction h with
  | nil => rfl
  | cons hx _ ih => rw [List.map_cons, List.map_cons, hf _ _ hx, ih]

variable {m m' : Match}

/-- What the groups hold on both sides. -/
theorem SameGroups.lookup {gs gs' : List (Nat × Span)} (h : SameGroups a a' is gs gs') (index : Nat) :
    Option.Rel
      (fun g g' => SameSpan a a' g g' ∨ index ∈ is ∧ ∃ w, g.chars = a ++ w ∧ g'.chars = a' ++ w)
      (gs.lookup index) (gs'.lookup index) := by
  induction h with
  | nil => exact .none
  | @piece i _ _ _ _ hspan _ ih =>
      rw [List.lookup_cons, List.lookup_cons]
      cases index == i with
      | true => exact .some (.inl hspan)
      | false => exact ih
  | @start i w _ _ hmem _ ih =>
      rw [List.lookup_cons, List.lookup_cons]
      cases hi : index == i with
      | true =>
          obtain rfl := beq_iff_eq.mp hi
          exact .some (.inr ⟨hmem, w, rfl, rfl⟩)
      | false => exact ih

namespace MatchBehind

/-- A group that may not hold the beginning holds the same piece. -/
theorem group? (h : MatchBehind a a' is m m') (index : Nat) (hindex : is.contains index = false) :
    Option.Rel (SameSpan a a') (m.group? index) (m'.group? index) := by
  have hlookup := h.groups.lookup index
  have hfree : index ∉ is := by simpa using hindex
  unfold Match.group?
  revert hlookup
  generalize m.groups.lookup index = o
  generalize m'.groups.lookup index = o'
  rintro (⟨hspan | ⟨hmem, -⟩⟩ | _)
  · exact .some hspan
  · exact absurd hmem hfree
  · exact .none

/-- What is read from the characters of such a group is the same. -/
theorem map_group? {β : Type} (h : MatchBehind a a' is m m') (index : Nat)
    (hindex : is.contains index = false) (f : List Char → β) :
    (m.group? index).map (fun g => f g.chars) = (m'.group? index).map fun g => f g.chars :=
  map_of_rel (h.group? index hindex) fun _ _ hspan => congrArg f hspan.chars

theorem map_text (h : MatchBehind a a' is m m') (index : Nat) (hindex : is.contains index = false) :
    (m.group? index).map (·.text) = (m'.group? index).map (·.text) := h.map_group? index hindex str

theorem group (h : MatchBehind a a' is m m') (index : Nat) (hindex : is.contains index = false) :
    m.group index = m'.group index :=
  congrArg (·.getD []) (h.map_group? index hindex id)

theorem isSome_group? (h : MatchBehind a a' is m m') (index : Nat)
    (hindex : is.contains index = false) : (m.group? index).isSome = (m'.group? index).isSome :=
  isSome_of_rel (h.group? index hindex)

/-- The group that may hold the beginning holds the same text, or the same behind the beginnings. -/
theorem group_of_mem (h : MatchBehind a a' is m m') (index : Nat) :
    m.group index = m'.group index ∨ ∃ w, m.group index = a ++ w ∧ m'.group index = a' ++ w := by
  have hlookup := h.groups.lookup index
  unfold Match.group Match.group?
  revert hlookup
  generalize m.groups.lookup index = o
  generalize m'.groups.lookup index = o'
  rintro (⟨hspan | ⟨-, w, hw, hw'⟩⟩ | _)
  · exact .inl hspan.chars
  · exact .inr ⟨w, hw, hw'⟩
  · exact .inl rfl

/-- Behind a longer beginning a match ends as much further to the right. -/
theorem stop_eq {added : Nat} (h : MatchBehind a a' is m m') (hadded : width a' = width a + added) :
    m'.stop = m.stop + added := by
  obtain ⟨w, rest, hafter, hafter'⟩ := h.after
  unfold Match.stop
  rw [hafter, hafter', Cursor.between_offset, Cursor.between_offset, width_append, width_append, hadded]
  omega

end MatchBehind

theorem SameMatch.start_eq {added : Nat} (h : SameMatch a a' m m')
    (hadded : width a' = width a + added) : m'.start = m.start + added := by
  obtain ⟨n, hn, hn'⟩ := h.whole.start
  unfold Match.start
  omega

end GodotLint.Pattern
