import GodotLint.Pattern.Basic
import GodotLint.Proofs.Text.Bytes

/-!
# What a pattern accepts

`p.Accepts pre w post gs` says, without any search, that `p` matches the text `w` where it stands
between `pre` and `post`, and remembers the groups `gs`, the latest first. The search `run` is
compared with it in both directions: a way of matching that `run` hands on is accepted
(`exists_accepts_of_run`), and `run` succeeds if some accepted way lets what comes after succeed
(`run_isSome_of_accepts`). From these follow the statements about `matchAt?`.
-/

namespace GodotLint

open Text

namespace Cursor

/-- The place between two parts of a text. -/
def between (pre post : List Char) : Cursor := ⟨pre.getLast?, width pre, post⟩

@[simp] theorem between_previous (pre post : List Char) :
    (between pre post).previous = pre.getLast? := rfl

@[simp] theorem between_offset (pre post : List Char) : (between pre post).offset = width pre := rfl

@[simp] theorem between_rest (pre post : List Char) : (between pre post).rest = post := rfl

/-- Going on by one character moves it from the text after the place to the text before it. -/
theorem next?_between_cons (pre : List Char) (x : Char) (post : List Char) :
    (between pre (x :: post)).next? = some (x, between (pre ++ [x]) post) := by
  simp [between, next?]

theorem next?_between_nil (pre : List Char) : (between pre []).next? = none := rfl

end Cursor

namespace Pattern

/-! ## The relation -/

/-- What one try at a place may accept: the text before it, the accepted text, the text after it
and the groups. -/
abbrev Acceptance := List Char → List Char → List Char → List (Nat × Span) → Prop

/-- Any number of tries one after the other, each of which consumes. -/
inductive Repeats (R : Acceptance) : Acceptance
  | none (pre post : List Char) : Repeats R pre [] post []
  | more {pre u v post : List Char} {gu gv : List (Nat × Span)} (first : R pre u (v ++ post) gu)
      (consumes : u ≠ []) (rest : Repeats R (pre ++ u) v post gv) :
      Repeats R pre (u ++ v) post (gv ++ gu)

/-- One try and then another one. -/
def Followed (R S : Acceptance) : Acceptance := fun pre w post gs =>
  ∃ u v gu gv, w = u ++ v ∧ gs = gv ++ gu ∧ R pre u (v ++ post) gu ∧ S (pre ++ u) v post gv

/-- One character that satisfies `P`. -/
def Single (P : Char → Bool) : Acceptance := fun _ w _ gs => ∃ x, w = [x] ∧ P x = true ∧ gs = []

/-- Nothing, at a place that satisfies `P`. -/
def Between (P : List Char → List Char → Prop) : Acceptance := fun pre w post gs =>
  w = [] ∧ gs = [] ∧ P pre post

/-- A pattern matches `w` between `pre` and `post` and remembers `gs`. -/
def Accepts : Pattern → Acceptance
  | .empty => Between fun _ _ => True
  | .char c => Single (· == c)
  | .any => Single (· != '\n')
  | .oneOf items => Single fun x => items.any (·.holds x)
  | .noneOf items => Single fun x => !items.any (·.holds x)
  | .atStart => Between fun pre _ => pre = []
  | .atEnd => Between fun _ post => post = []
  | .wordEdge => Between fun pre post => (Cursor.between pre post).isWordEdge = true
  | .seq p q => Followed p.Accepts q.Accepts
  | .alt p q => fun pre w post gs => p.Accepts pre w post gs ∨ q.Accepts pre w post gs
  | .opt p => fun pre w post gs => p.Accepts pre w post gs ∨ w = [] ∧ gs = []
  | .star p => Repeats p.Accepts
  | .plus p => Followed p.Accepts (Repeats p.Accepts)
  | .lazyPlus p => Followed p.Accepts (Repeats p.Accepts)
  | .group index p => fun pre w post gs =>
    ∃ g, p.Accepts pre w post g ∧ gs = (index, ⟨width pre, w⟩) :: g

/-- Some beginning of `post` is accepted after `pre`. -/
def Starts (p : Pattern) (pre post : List Char) : Prop :=
  ∃ w rest gs, post = w ++ rest ∧ p.Accepts pre w rest gs

/-! ## The search, one choice at a time -/

/-- A place in a text together with the groups remembered so far. -/
def Progress.at (pre post : List Char) (gs : List (Nat × Span)) : Progress :=
  { cursor := .between pre post, groups := gs }

/-- One try that consumes, and `again` behind it. -/
def goOn (step again : Progress → Continuation → Option Progress) (s : Progress) (k : Continuation) :
    Option Progress :=
  step s fun t => if s.cursor.offset < t.cursor.offset then again t k else none

section choices

variable {p q : Pattern} {k : Continuation} (s : Progress)

theorem run_alt : (alt p q).run s k = (p.run s k).or (q.run s k) := by
  rw [run]
  cases p.run s k <;> rfl

theorem run_opt : (opt p).run s k = (p.run s k).or (k s) := by
  rw [run]
  cases p.run s k <;> rfl

variable {step : Progress → Continuation → Option Progress} (count : Nat)

/-- Greedy repetition goes on if it can, and stops otherwise. -/
theorem repeatGreedy_succ : repeatGreedy step k (count + 1) s =
    (goOn step (fun t k => repeatGreedy step k count t) s k).or (k s) := by
  rw [repeatGreedy, goOn]
  cases step s _ <;> rfl

/-- Lazy repetition stops if it can, and goes on otherwise. -/
theorem repeatLazy_succ : repeatLazy step k (count + 1) s =
    (k s).or (goOn step (fun t k => repeatLazy step k count t) s k) := by
  rw [repeatLazy, goOn]
  cases k s <;> rfl

end choices

theorem offset_lt_iff (pre w post rest : List Char) (gs gs' : List (Nat × Span)) :
    (Progress.at pre post gs).cursor.offset < (Progress.at (pre ++ w) rest gs').cursor.offset ↔
      w ≠ [] := by
  simp only [Progress.at, Cursor.between, width_append]
  constructor
  · rintro h rfl
    simp at h
  · intro h
    have := width_pos h
    omega

/-- The group that is remembered is the text between the two places. -/
theorem remember_at (index : Nat) (pre w rest : List Char) (gs gs' : List (Nat × Span)) :
    remember index (.at pre (w ++ rest) gs) (.at (pre ++ w) rest gs') =
      .at (pre ++ w) rest ((index, ⟨width pre, w⟩) :: gs') := by
  simp [remember, Progress.at, Cursor.between]

variable {R S T : Acceptance} {first second step again : Progress → Continuation → Option Progress}

/-! ## The search is sound -/

/-- A search keeps to `R`: what it hands to its continuation was accepted. -/
def SoundFor (R : Acceptance) (step : Progress → Continuation → Option Progress) : Prop :=
  ∀ pre post gs k r, step (.at pre post gs) k = some r →
    ∃ w rest g, post = w ++ rest ∧ R pre w rest g ∧ k (.at (pre ++ w) rest (g ++ gs)) = some r

theorem SoundFor.mono (h : SoundFor R step)
    (hRS : ∀ {pre w post gs}, R pre w post gs → S pre w post gs) : SoundFor S step := by
  intro pre post gs k r hstep
  obtain ⟨w, rest, g, hpost, hR, hk⟩ := h _ _ _ _ _ hstep
  exact ⟨w, rest, g, hpost, hRS hR, hk⟩

theorem soundFor_consume (P : Char → Bool) : SoundFor (Single P) (consume P) := by
  intro pre post gs k r h
  cases post with
  | nil => simp [consume, Progress.at, Cursor.next?_between_nil] at h
  | cons x post =>
      simp only [consume, Progress.at, Cursor.next?_between_cons] at h
      split_ifs at h with hx
      exact ⟨[x], post, [], rfl, ⟨x, rfl, hx, rfl⟩, h⟩

theorem soundFor_check {P : List Char → List Char → Prop} {holds : Progress → Bool}
    (hP : ∀ pre post gs, holds (.at pre post gs) = true → P pre post) :
    SoundFor (Between P) fun s k => check (holds s) s k := by
  intro pre post gs k r h
  simp only [check] at h
  split_ifs at h with hs
  exact ⟨[], post, [], rfl, ⟨rfl, rfl, hP _ _ _ hs⟩, by simpa using h⟩

/-- A search that stays where it stands. -/
theorem soundFor_stay : SoundFor (Between fun _ _ => True) fun s k => k s := by
  intro pre post gs k r h
  exact ⟨[], post, [], rfl, ⟨rfl, rfl, trivial⟩, by simpa using h⟩

theorem SoundFor.or (hfirst : SoundFor R first) (hsecond : SoundFor R second) :
    SoundFor R fun s k => (first s k).or (second s k) := by
  intro pre post gs k r h
  rcases Option.or_eq_some_iff.mp h with h | ⟨-, h⟩
  · exact hfirst _ _ _ _ _ h
  · exact hsecond _ _ _ _ _ h

theorem SoundFor.followed (hR : SoundFor R first) (hS : SoundFor S second) :
    SoundFor (Followed R S) fun s k => first s fun t => second t k := by
  intro pre post gs k r h
  obtain ⟨u, rest, gu, rfl, hu, h⟩ := hR _ _ _ _ _ h
  obtain ⟨v, rest, gv, rfl, hv, h⟩ := hS _ _ _ _ _ h
  refine ⟨u ++ v, rest, gv ++ gu, by simp, ⟨u, v, gu, gv, rfl, rfl, hu, hv⟩, ?_⟩
  simpa using h

theorem SoundFor.goOn (hstep : SoundFor R step) (hagain : SoundFor (Repeats R) again) :
    SoundFor (Repeats R) (goOn step again) := by
  intro pre post gs k r h
  obtain ⟨u, rest, gu, rfl, hu, h⟩ := hstep _ _ _ _ _ h
  split_ifs at h with hlt
  obtain ⟨v, rest, gv, rfl, hv, h⟩ := hagain _ _ _ _ _ h
  exact ⟨u ++ v, rest, gv ++ gu, by simp, .more hu ((offset_lt_iff ..).mp hlt) hv, by simpa using h⟩

/-- A repetition may stop everywhere. -/
theorem soundFor_stop : SoundFor (Repeats R) fun s k => k s :=
  soundFor_stay.mono fun {pre w post gs} h => by
    obtain ⟨rfl, rfl, -⟩ := h
    exact .none pre post

theorem SoundFor.repeatGreedy (hR : SoundFor R step) (count : Nat) :
    SoundFor (Repeats R) fun s k => repeatGreedy step k count s := by
  induction count with
  | zero => exact soundFor_stop
  | succ count ih =>
      simp only [repeatGreedy_succ]
      exact (hR.goOn ih).or soundFor_stop

theorem SoundFor.repeatLazy (hR : SoundFor R step) (count : Nat) :
    SoundFor (Repeats R) fun s k => repeatLazy step k count s := by
  induction count with
  | zero => exact soundFor_stop
  | succ count ih =>
      simp only [repeatLazy_succ]
      exact soundFor_stop.or (hR.goOn ih)

/-- Whatever the search hands on is accepted. -/
theorem exists_accepts_of_run (p : Pattern) : SoundFor p.Accepts p.run := by
  induction p with
  | empty => exact soundFor_stay
  | char c => exact soundFor_consume _
  | any => exact soundFor_consume _
  | oneOf items => exact soundFor_consume _
  | noneOf items => exact soundFor_consume _
  | atStart =>
      change SoundFor (Between _) fun s k => check (s.cursor.offset == 0) s k
      exact soundFor_check fun pre post gs h => by simpa [Progress.at, Cursor.between] using h
  | atEnd =>
      change SoundFor (Between _) fun s k => check s.cursor.rest.isEmpty s k
      exact soundFor_check fun pre post gs h => by simpa [Progress.at, Cursor.between] using h
  | wordEdge =>
      change SoundFor (Between _) fun s k => check s.cursor.isWordEdge s k
      exact soundFor_check fun pre post gs h => h
  | seq p q ihp ihq => exact ihp.followed ihq
  | alt p q ihp ihq =>
      intro pre post gs k r h
      rw [run_alt] at h
      exact ((ihp.mono .inl).or (ihq.mono .inr)) _ _ _ _ _ h
  | opt p ihp =>
      intro pre post gs k r h
      rw [run_opt] at h
      exact ((ihp.mono .inl).or (soundFor_stay.mono fun h => .inr ⟨h.1, h.2.1⟩)) _ _ _ _ _ h
  | star p ihp =>
      intro pre post gs k r h
      exact ihp.repeatGreedy _ _ _ _ _ _ h
  | plus p ihp =>
      intro pre post gs k r h
      obtain ⟨u, rest, gu, rfl, hu, h⟩ := ihp _ _ _ _ _ h
      obtain ⟨v, rest, gv, rfl, hv, h⟩ := ihp.repeatGreedy _ _ _ _ _ _ h
      exact ⟨u ++ v, rest, gv ++ gu, by simp, ⟨u, v, gu, gv, rfl, rfl, hu, hv⟩, by simpa using h⟩
  | lazyPlus p ihp =>
      intro pre post gs k r h
      obtain ⟨u, rest, gu, rfl, hu, h⟩ := ihp _ _ _ _ _ h
      obtain ⟨v, rest, gv, rfl, hv, h⟩ := ihp.repeatLazy _ _ _ _ _ _ h
      exact ⟨u ++ v, rest, gv ++ gu, by simp, ⟨u, v, gu, gv, rfl, rfl, hu, hv⟩, by simpa using h⟩
  | group index p ihp =>
      intro pre post gs k r h
      obtain ⟨w, rest, g, rfl, hacc, h⟩ := ihp _ _ _ _ _ h
      rw [remember_at] at h
      exact ⟨w, rest, _, rfl, ⟨g, hacc, rfl⟩, h⟩

/-! ## The search is complete -/

/-- A search finds `R`: it succeeds if some accepted way lets its continuation succeed. -/
def CompleteFor (R : Acceptance) (step : Progress → Continuation → Option Progress) : Prop :=
  ∀ pre w rest gs g k, R pre w rest g → (k (.at (pre ++ w) rest (g ++ gs))).isSome = true →
    (step (.at pre (w ++ rest) gs) k).isSome = true

theorem completeFor_consume (P : Char → Bool) : CompleteFor (Single P) (consume P) := by
  rintro pre w rest gs g k ⟨x, rfl, hx, rfl⟩ hk
  simp only [consume, Progress.at, List.cons_append, List.nil_append,
    Cursor.next?_between_cons, hx, if_true]
  exact hk

theorem completeFor_check {P : List Char → List Char → Prop} {holds : Progress → Bool}
    (hP : ∀ pre post gs, P pre post → holds (.at pre post gs) = true) :
    CompleteFor (Between P) fun s k => check (holds s) s k := by
  rintro pre w rest gs g k ⟨rfl, rfl, h⟩ hk
  simp only [check, List.nil_append, hP _ _ _ h, if_true]
  simpa using hk

theorem completeFor_stay : CompleteFor (Between fun _ _ => True) fun s k => k s := by
  rintro pre w rest gs g k ⟨rfl, rfl, -⟩ hk
  simpa using hk

/-- Of two searches one after the other, each finds what it finds alone. -/
theorem CompleteFor.or (hfirst : CompleteFor R first) (hsecond : CompleteFor S second)
    (hT : ∀ {pre w post gs}, T pre w post gs → R pre w post gs ∨ S pre w post gs) :
    CompleteFor T fun s k => (first s k).or (second s k) := by
  intro pre w rest gs g k h hk
  rw [Option.isSome_or, Bool.or_eq_true]
  rcases hT h with h | h
  · exact .inl (hfirst _ _ _ _ _ _ h hk)
  · exact .inr (hsecond _ _ _ _ _ _ h hk)

theorem CompleteFor.followed (hR : CompleteFor R first) (hS : CompleteFor S second) :
    CompleteFor (Followed R S) fun s k => first s fun t => second t k := by
  rintro pre w rest gs g k ⟨u, v, gu, gv, rfl, rfl, hu, hv⟩ hk
  rw [List.append_assoc]
  refine hR _ _ _ _ _ _ hu (hS _ _ _ _ _ _ hv ?_)
  simpa using hk

/-- What `R` accepts of at most `count` characters. -/
def UpTo (count : Nat) (R : Acceptance) : Acceptance := fun pre w post gs =>
  w.length ≤ count ∧ R pre w post gs

/-- One try that consumes, and `S` behind it. -/
def Onward (R S : Acceptance) : Acceptance := fun pre w post gs =>
  ∃ u v gu gv, w = u ++ v ∧ gs = gv ++ gu ∧ u ≠ [] ∧ R pre u (v ++ post) gu ∧ S (pre ++ u) v post gv

theorem CompleteFor.goOn (hstep : CompleteFor R step) (hagain : CompleteFor S again) :
    CompleteFor (Onward R S) (goOn step again) := by
  rintro pre w rest gs g k ⟨u, v, gu, gv, rfl, rfl, hne, hu, hv⟩ hk
  rw [List.append_assoc]
  refine hstep _ _ _ _ _ _ hu ?_
  rw [if_pos ((offset_lt_iff ..).mpr hne)]
  exact hagain _ _ _ _ _ _ hv (by simpa using hk)

/-- Each try of a repetition consumes, so without characters there is none. -/
theorem completeFor_upTo_zero : CompleteFor (UpTo 0 (Repeats R)) fun s k => k s := by
  rintro pre w rest gs g k ⟨hlen, hrep⟩ hk
  cases hrep with
  | none => simpa using hk
  | more _ consumes _ => simp_all

/-- A repetition stops, or goes on in fewer characters. -/
theorem between_or_onward {pre w post : List Char} {gs : List (Nat × Span)} {count : Nat} (h : UpTo (count + 1) (Repeats R) pre w post gs) :
    Between (fun _ _ => True) pre w post gs ∨ Onward R (UpTo count (Repeats R)) pre w post gs := by
  obtain ⟨hlen, hrep⟩ := h
  cases hrep with
  | none => exact .inl ⟨rfl, rfl, trivial⟩
  | more first consumes rest =>
      have hpos := List.length_pos_of_ne_nil consumes
      rw [List.length_append] at hlen
      exact .inr ⟨_, _, _, _, rfl, rfl, consumes, first, by omega, rest⟩

/-- Greedy repetition finds every way that its bound on the number of tries allows. Each try
consumes, so the length of the accepted text is such a bound. -/
theorem CompleteFor.repeatGreedy (hR : CompleteFor R step) (count : Nat) :
    CompleteFor (UpTo count (Repeats R)) fun s k => repeatGreedy step k count s := by
  induction count with
  | zero => exact completeFor_upTo_zero
  | succ count ih =>
      simp only [repeatGreedy_succ]
      exact (hR.goOn ih).or completeFor_stay fun h => (between_or_onward h).symm

theorem CompleteFor.repeatLazy (hR : CompleteFor R step) (count : Nat) :
    CompleteFor (UpTo count (Repeats R)) fun s k => repeatLazy step k count s := by
  induction count with
  | zero => exact completeFor_upTo_zero
  | succ count ih =>
      simp only [repeatLazy_succ]
      exact completeFor_stay.or (hR.goOn ih) between_or_onward

/-- The search succeeds on everything that is accepted, if what comes after does. -/
theorem run_isSome_of_accepts (p : Pattern) : CompleteFor p.Accepts p.run := by
  induction p with
  | empty => exact completeFor_stay
  | char c => exact completeFor_consume _
  | any => exact completeFor_consume _
  | oneOf items => exact completeFor_consume _
  | noneOf items => exact completeFor_consume _
  | atStart =>
      change CompleteFor (Between _) fun s k => check (s.cursor.offset == 0) s k
      exact completeFor_check fun pre post gs h => by simp [Progress.at, Cursor.between, h]
  | atEnd =>
      change CompleteFor (Between _) fun s k => check s.cursor.rest.isEmpty s k
      exact completeFor_check fun pre post gs h => by simp [Progress.at, Cursor.between, h]
  | wordEdge =>
      change CompleteFor (Between _) fun s k => check s.cursor.isWordEdge s k
      exact completeFor_check fun pre post gs h => h
  | seq p q ihp ihq => exact ihp.followed ihq
  | alt p q ihp ihq =>
      intro pre w rest gs g k h hk
      rw [run_alt]
      exact ihp.or ihq id _ _ _ _ _ _ h hk
  | opt p ihp =>
      intro pre w rest gs g k h hk
      rw [run_opt]
      refine ihp.or completeFor_stay ?_ _ _ _ _ _ _ h hk
      exact Or.imp_right fun hstay => ⟨hstay.1, hstay.2, trivial⟩
  | star p ihp =>
      intro pre w rest gs g k h hk
      refine ihp.repeatGreedy _ _ _ _ _ _ k ⟨?_, h⟩ hk
      simp [Progress.at, Cursor.between]
  | plus p ihp =>
      rintro pre w rest gs g k ⟨u, v, gu, gv, rfl, rfl, hu, hv⟩ hk
      rw [List.append_assoc]
      refine ihp _ _ _ _ _ _ hu (ihp.repeatGreedy _ _ _ _ _ _ k ⟨?_, hv⟩ (by simpa using hk))
      simp [Progress.at, Cursor.between]
  | lazyPlus p ihp =>
      rintro pre w rest gs g k ⟨u, v, gu, gv, rfl, rfl, hu, hv⟩ hk
      rw [List.append_assoc]
      refine ihp _ _ _ _ _ _ hu (ihp.repeatLazy _ _ _ _ _ _ k ⟨?_, hv⟩ (by simpa using hk))
      simp [Progress.at, Cursor.between]
  | group index p ihp =>
      rintro pre w rest gs g k ⟨g, h, rfl⟩ hk
      refine ihp _ _ _ _ _ _ h ?_
      rw [remember_at]
      exact hk

/-! ## Matches at a place -/

/-- The match of `w` between `pre` and `rest` that remembers `gs`. -/
def Match.of (pre w rest : List Char) (gs : List (Nat × Span)) : Match :=
  ⟨⟨width pre, w⟩, gs, .between (pre ++ w) rest⟩

section fields

variable (pre w rest : List Char) (gs : List (Nat × Span))

@[simp] theorem Match.of_start : (Match.of pre w rest gs).start = width pre := rfl

@[simp] theorem Match.of_stop : (Match.of pre w rest gs).stop = width (pre ++ w) := rfl

@[simp] theorem Match.of_after : (Match.of pre w rest gs).after = .between (pre ++ w) rest := rfl

@[simp] theorem Match.of_whole : (Match.of pre w rest gs).whole = ⟨width pre, w⟩ := rfl

@[simp] theorem Match.of_groups : (Match.of pre w rest gs).groups = gs := rfl

end fields

/-- A match at a place is of an accepted beginning of the text there. -/
theorem exists_accepts_of_matchAt? {p : Pattern} {pre post : List Char} {m : Match}
    (h : p.matchAt? (.between pre post) = some m) :
    ∃ w rest gs, post = w ++ rest ∧ p.Accepts pre w rest gs ∧ m = .of pre w rest gs := by
  simp only [matchAt?, Option.map_eq_some_iff] at h
  obtain ⟨t, hrun, rfl⟩ := h
  obtain ⟨w, rest, gs, rfl, hacc, ht⟩ := exists_accepts_of_run p pre post [] some t hrun
  cases ht
  exact ⟨w, rest, gs, rfl, hacc, by simp [Match.of, Progress.at, Cursor.between]⟩

/-- There is a match at a place exactly when a beginning of the text there is accepted. -/
theorem matchAt?_isSome_iff {p : Pattern} {pre post : List Char} :
    (p.matchAt? (.between pre post)).isSome = true ↔ p.Starts pre post := by
  constructor
  · intro h
    obtain ⟨m, hm⟩ := Option.isSome_iff_exists.mp h
    obtain ⟨w, rest, gs, hpost, hacc, -⟩ := exists_accepts_of_matchAt? hm
    exact ⟨w, rest, gs, hpost, hacc⟩
  · rintro ⟨w, rest, gs, rfl, hacc⟩
    simp only [matchAt?, Option.isSome_map]
    exact run_isSome_of_accepts p _ _ _ [] _ _ hacc rfl

/-- No match at a place where nothing is accepted. -/
theorem matchAt?_eq_none_iff {p : Pattern} {pre post : List Char} :
    p.matchAt? (.between pre post) = none ↔ ¬ p.Starts pre post := by
  rw [← matchAt?_isSome_iff, Bool.not_eq_true, Option.isSome_eq_false_iff, Option.isNone_iff_eq_none]

end Pattern

end GodotLint
