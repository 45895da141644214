import GodotLint.Proofs.Pattern.Accepts

/-!
# Searching a text

Where `find?` finds its match, in terms of `Accepts`: at the first place at which anything is
accepted. `findAll` is then read as a scan: for a pattern that spells tokens (`Spells`), the
matches are the tokens that a reader meets who goes from left to right and starts again just past
each token (`Scan`, `Spells.findAll_eq`). The scan is a function of the text (`Scan.unique`),
and a token that it does not report is hidden behind an earlier one (`Scan.mem_or_hidden`).

The tokens of a scan stand in a text one after the other. Such a `Row` forgets what the scan says
of the text between them, so it can be thinned out (`Row.filter`) and cut (`Row.exists_cut`).
-/

namespace GodotLint.Pattern

open Text

/-! ## The first match -/

/-- The search looks at a place, and then from the next one on. -/
theorem findFrom?_cons (p : Pattern) (pre : List Char) (x : Char) (post : List Char) :
    p.findFrom? pre.getLast? (width pre) (x :: post) =
      (p.matchAt? (.between pre (x :: post))).or
        (p.findFrom? (pre ++ [x]).getLast? (width (pre ++ [x])) post) := by
  have hlast : (pre ++ [x]).getLast? = some x := by simp
  have hwidth : width (pre ++ [x]) = width pre + x.utf8Size := by simp
  have hhere : p.matchAt? ⟨pre.getLast?, width pre, x :: post⟩ =
      p.matchAt? (.between pre (x :: post)) := rfl
  rw [findFrom?, hlast, hwidth, hhere]
  cases p.matchAt? (.between pre (x :: post)) with
  | none => rfl
  | some m => rfl

/-- The first match behind a text, past a gap in which nothing is accepted. -/
structure FirstMatch (p : Pattern) (pre gap w rest : List Char) (gs : List (Nat × Span)) : Prop where
  clear : ∀ u v, gap = u ++ v → v ≠ [] → ¬ p.Starts (pre ++ u) (v ++ w ++ rest)
  accepted : p.Accepts (pre ++ gap) w rest gs
  matched : p.matchAt? (.between (pre ++ gap) (w ++ rest)) = some (.of (pre ++ gap) w rest gs)

/-- A match at the place where the search stands is the first one. -/
theorem exists_firstMatch_of_matchAt? {p : Pattern} {m : Match} {pre post : List Char}
    (h : p.matchAt? (.between pre post) = some m) :
    ∃ w rest gs, post = w ++ rest ∧ m = .of pre w rest gs ∧ FirstMatch p pre [] w rest gs := by
  obtain ⟨w, rest, gs, rfl, hacc, rfl⟩ := exists_accepts_of_matchAt? h
  refine ⟨w, rest, gs, rfl, rfl, fun u v hgap hv => ?_, by simpa using hacc, by simpa using h⟩
  exact absurd (List.append_eq_nil_iff.mp hgap.symm).2 hv

/-- The first match from a place on starts where something is accepted, and nothing is accepted
at an earlier place. -/
theorem findFrom?_eq_some {p : Pattern} {m : Match} {pre post : List Char}
    (h : p.findFrom? pre.getLast? (width pre) post = some m) :
    ∃ gap w rest gs, post = gap ++ w ++ rest ∧ m = .of (pre ++ gap) w rest gs ∧
      FirstMatch p pre gap w rest gs := by
  induction post generalizing pre with
  | nil =>
      obtain ⟨w, rest, gs, hpost, rfl, hfirst⟩ := exists_firstMatch_of_matchAt? h
      exact ⟨[], w, rest, gs, hpost, by simp, hfirst⟩
  | cons x post ih =>
      rw [findFrom?_cons, Option.or_eq_some_iff] at h
      rcases h with hm | ⟨hnone, h⟩
      · obtain ⟨w, rest, gs, hpost, rfl, hfirst⟩ := exists_firstMatch_of_matchAt? hm
        exact ⟨[], w, rest, gs, hpost, by simp, hfirst⟩
      · obtain ⟨gap, w, rest, gs, rfl, rfl, hclear, hacc, hmatch⟩ := ih h
        refine ⟨x :: gap, w, rest, gs, rfl, by simp, fun u v huv hv => ?_, by simpa using hacc,
          by simpa using hmatch⟩
        rcases List.cons_eq_append_iff.mp huv with ⟨rfl, rfl⟩ | ⟨u, rfl, rfl⟩
        · simpa using matchAt?_eq_none_iff.mp hnone
        · simpa using hclear u v rfl hv

/-- There is no match from a place on exactly when nothing is accepted from there on. -/
theorem findFrom?_eq_none_iff {p : Pattern} :
    ∀ {pre post : List Char}, p.findFrom? pre.getLast? (width pre) post = none ↔
      ∀ u v, post = u ++ v → ¬ p.Starts (pre ++ u) v := by
  intro pre post
  induction post generalizing pre with
  | nil =>
      change p.matchAt? (.between pre []) = none ↔ _
      rw [matchAt?_eq_none_iff]
      constructor
      · rintro h u v huv
        obtain ⟨rfl, rfl⟩ := List.append_eq_nil_iff.mp huv.symm
        simpa using h
      · intro h
        simpa using h [] [] rfl
  | cons x post ih =>
      rw [findFrom?_cons, Option.or_eq_none_iff, ih, matchAt?_eq_none_iff]
      constructor
      · rintro ⟨hhere, hlater⟩ u v huv
        rcases List.cons_eq_append_iff.mp huv with ⟨rfl, rfl⟩ | ⟨u, rfl, rfl⟩
        · simpa using hhere
        · simpa using hlater u v rfl
      · intro h
        refine ⟨by simpa using h [] (x :: post) rfl, fun u v huv => ?_⟩
        simpa using h (x :: u) v (by simp [huv])

/-- What the search finds is accepted where it stands. -/
theorem find?_eq_some {p : Pattern} {s : List Char} {m : Match} (h : p.find? s = some m) :
    ∃ pre w post gs, s = pre ++ w ++ post ∧ p.Accepts pre w post gs ∧ m = .of pre w post gs := by
  obtain ⟨pre, w, post, gs, rfl, rfl, hfirst⟩ := @findFrom?_eq_some p m [] s h
  exact ⟨pre, w, post, gs, rfl, hfirst.accepted, rfl⟩

/-- A pattern occurs in a text exactly when it accepts some part of it. -/
theorem occursIn_iff {p : Pattern} {s : List Char} :
    p.occursIn s = true ↔ ∃ pre w post gs, s = pre ++ w ++ post ∧ p.Accepts pre w post gs := by
  have hnone := @findFrom?_eq_none_iff p [] s
  rw [occursIn, Option.isSome_iff_ne_none, find?]
  change p.findFrom? none 0 s = none ↔ _ at hnone
  rw [Ne, hnone]
  constructor
  · intro h
    push Not at h
    obtain ⟨pre, v, rfl, w, post, gs, rfl, hacc⟩ := h
    exact ⟨pre, w, post, gs, by simp, by simpa using hacc⟩
  · rintro ⟨pre, w, post, gs, rfl, hacc⟩ h
    exact h pre (w ++ post) (by simp) ⟨w, post, gs, rfl, by simpa using hacc⟩

/-! ## One match after the other -/

/-- Nothing that is accepted is empty. -/
def Consumes (R : Acceptance) : Prop := ∀ pre w post gs, R pre w post gs → w ≠ []

section findAllFrom

variable {p : Pattern} {pre post gap w rest : List Char} {gs : List (Nat × Span)} {count : Nat}
  {last : Option Nat}

/-- A match of a pattern that consumes is not empty, and less text is left behind it. -/
theorem FirstMatch.start_lt_stop (h : FirstMatch p pre gap w rest gs) (hp : Consumes p.Accepts) :
    (Match.of (pre ++ gap) w rest gs).start < (Match.of (pre ++ gap) w rest gs).stop ∧
      rest.length < (gap ++ w ++ rest).length := by
  have hw : w ≠ [] := hp _ _ _ _ h.accepted
  have hwidth := width_pos hw
  have hlength := List.length_pos_of_ne_nil hw
  constructor
  · rw [Match.of_start, Match.of_stop, width_append _ w]
    omega
  · simp only [List.length_append]
    omega

theorem findAllFrom_of_none {c : Cursor} (h : p.findFrom? c.previous c.offset c.rest = none) :
    p.findAllFrom (count + 1) last c = [] := by
  rw [findAllFrom, h]

/-- A search goes on behind a match that is not empty. -/
theorem findAllFrom_of_some {c : Cursor} {m : Match}
    (h : p.findFrom? c.previous c.offset c.rest = some m) (hm : m.start < m.stop) :
    p.findAllFrom (count + 1) last c = m :: p.findAllFrom count (some m.stop) m.after := by
  rw [findAllFrom, h]
  exact if_pos hm

/-- **One step of a search for all matches** of a pattern that consumes: it ends in a text in which nothing
is accepted, or goes on behind the first match. -/
theorem findAllFrom_succ (hp : Consumes p.Accepts) (count : Nat) (last : Option Nat)
    (pre post : List Char) :
    (p.findAllFrom (count + 1) last (.between pre post) = [] ∧
      ∀ u v, post = u ++ v → ¬ p.Starts (pre ++ u) v) ∨
    ∃ gap w rest gs, post = gap ++ w ++ rest ∧ FirstMatch p pre gap w rest gs ∧
      rest.length < post.length ∧
      p.findAllFrom (count + 1) last (.between pre post) = .of (pre ++ gap) w rest gs ::
        p.findAllFrom count (some (width (pre ++ gap ++ w))) (.between (pre ++ gap ++ w) rest) := by
  cases hfind : p.findFrom? pre.getLast? (width pre) post with
  | none => exact .inl ⟨findAllFrom_of_none hfind, findFrom?_eq_none_iff.mp hfind⟩
  | some m =>
      obtain ⟨gap, w, rest, gs, rfl, rfl, hfirst⟩ := findFrom?_eq_some hfind
      obtain ⟨hlt, hless⟩ := hfirst.start_lt_stop hp
      exact .inr ⟨gap, w, rest, gs, rfl, hfirst, hless, findAllFrom_of_some hfind hlt⟩

end findAllFrom

/-! ## What stands behind a match -/

/-- What is accepted is accepted whatever follows. -/
def IgnoresRest (R : Acceptance) : Prop :=
  ∀ pre w post gs, R pre w post gs → ∀ rest, R pre w rest gs

theorem IgnoresRest.followed {R S : Acceptance} (hR : IgnoresRest R) (hS : IgnoresRest S) :
    IgnoresRest (Followed R S) := by
  rintro pre w post gs ⟨u, v, gu, gv, rfl, rfl, hu, hv⟩ rest
  exact ⟨u, v, gu, gv, rfl, rfl, hR _ _ _ _ hu _, hS _ _ _ _ hv _⟩

theorem IgnoresRest.repeats {R : Acceptance} (hR : IgnoresRest R) : IgnoresRest (Repeats R) := by
  intro pre w post gs h rest
  induction h with
  | none pre => exact .none pre rest
  | more first consumes _ ih => exact .more (hR _ _ _ _ first _) consumes ih

/-- Neither the end of the text nor the edge of a word is asked for. -/
def isOpenEnded : Pattern → Bool
  | .atEnd => false
  | .wordEdge => false
  | .seq p q => p.isOpenEnded && q.isOpenEnded
  | .alt p q => p.isOpenEnded && q.isOpenEnded
  | .opt p => p.isOpenEnded
  | .star p => p.isOpenEnded
  | .plus p => p.isOpenEnded
  | .lazyPlus p => p.isOpenEnded
  | .group _ p => p.isOpenEnded
  | _ => true

theorem ignoresRest_of_isOpenEnded {p : Pattern} (h : p.isOpenEnded = true) :
    IgnoresRest p.Accepts := by
  induction p with
  | empty => exact fun _ _ _ _ h _ => h
  | char c => exact fun _ _ _ _ h _ => h
  | any => exact fun _ _ _ _ h _ => h
  | oneOf items => exact fun _ _ _ _ h _ => h
  | noneOf items => exact fun _ _ _ _ h _ => h
  | atStart => exact fun _ _ _ _ h _ => h
  | atEnd => cases h
  | wordEdge => cases h
  | seq p q ihp ihq =>
      obtain ⟨hp, hq⟩ := Bool.and_eq_true_iff.mp h
      exact (ihp hp).followed (ihq hq)
  | alt p q ihp ihq =>
      obtain ⟨hp, hq⟩ := Bool.and_eq_true_iff.mp h
      exact fun _ _ _ _ hacc rest => hacc.imp (ihp hp _ _ _ _ · rest) (ihq hq _ _ _ _ · rest)
  | opt p ihp => exact fun _ _ _ _ hacc rest => hacc.imp_left (ihp h _ _ _ _ · rest)
  | star p ihp => exact (ihp h).repeats
  | plus p ihp => exact (ihp h).followed (ihp h).repeats
  | lazyPlus p ihp => exact (ihp h).followed (ihp h).repeats
  | group index p ihp =>
      rintro pre w post gs ⟨g, hacc, rfl⟩ rest
      exact ⟨g, ihp h _ _ _ _ hacc rest, rfl⟩

/-- What occurs in the beginning of a text occurs in the text, if the pattern does not ask for an
end. -/
theorem occursIn_append {p : Pattern} (h : p.isOpenEnded = true) {s : List Char}
    (hs : p.occursIn s = true) (rest : List Char) : p.occursIn (s ++ rest) = true := by
  obtain ⟨pre, w, post, gs, rfl, hacc⟩ := occursIn_iff.mp hs
  refine occursIn_iff.mpr ⟨pre, w, post ++ rest, gs, by simp, ?_⟩
  exact ignoresRest_of_isOpenEnded h pre w post gs hacc _

/-! ## Tokens -/

section tokens

variable {α : Type}

/-- A token and the text around it. -/
structure Placed (α : Type) where
  /-- The text before the token. -/
  before : List Char
  token : α
  /-- The text after the token. -/
  after : List Char

/-- A pattern accepts exactly the texts of tokens, whatever stands around them, and the token can
be told from the text that starts with it. -/
structure Spells (p : Pattern) (text : α → List Char)
    (groups : (offset : Nat) → α → List (Nat × Span)) : Prop where
  accepts_iff : ∀ {pre w post gs},
    p.Accepts pre w post gs ↔ ∃ a, w = text a ∧ gs = groups (width pre) a
  text_ne_nil : ∀ a, text a ≠ []
  unambiguous : ∀ {a b u v}, text a ++ u = text b ++ v → a = b

/-- Some token stands at the beginning of a text. -/
def Begins (text : α → List Char) (s : List Char) : Prop := ∃ a rest, s = text a ++ rest

/-- The tokens that a reader meets who has read `pre` and has `post` before him: the one that
starts first, and then those in the text after it. -/
inductive Scan (text : α → List Char) : List Char → List Char → List (Placed α) → Prop
  | done {pre post : List Char} (clear : ∀ u v, post = u ++ v → ¬ Begins text v) :
      Scan text pre post []
  | next {pre gap rest : List Char} {a : α} {ps : List (Placed α)}
      (clear : ∀ u v, gap = u ++ v → v ≠ [] → ¬ Begins text (v ++ text a ++ rest))
      (later : Scan text (pre ++ gap ++ text a) rest ps) :
      Scan text pre (gap ++ text a ++ rest) (⟨pre ++ gap, a, rest⟩ :: ps)

variable {text : α → List Char} {groups : Nat → α → List (Nat × Span)} {p : Pattern}

theorem Spells.starts_iff (h : Spells p text groups) {pre post : List Char} :
    p.Starts pre post ↔ Begins text post := by
  constructor
  · rintro ⟨w, rest, gs, rfl, hacc⟩
    obtain ⟨a, rfl, -⟩ := h.accepts_iff.mp hacc
    exact ⟨a, rest, rfl⟩
  · rintro ⟨a, rest, rfl⟩
    exact ⟨text a, rest, _, rfl, h.accepts_iff.mpr ⟨a, rfl, rfl⟩⟩

/-- The match of a placed token. -/
def Placed.toMatch (text : α → List Char) (groups : Nat → α → List (Nat × Span))
    (x : Placed α) : Match :=
  .of x.before (text x.token) x.after (groups (width x.before) x.token)

theorem Spells.consumes (h : Spells p text groups) : Consumes p.Accepts := by
  intro pre w post gs hacc
  obtain ⟨a, rfl, -⟩ := h.accepts_iff.mp hacc
  exact h.text_ne_nil a

/-- The matches of a pattern that spells tokens come from a scan, from any place on. -/
theorem Spells.exists_scan_findAllFrom (h : Spells p text groups) (count : Nat) (last : Option Nat)
    (pre post : List Char) (hcount : post.length < count) :
    ∃ ps, Scan text pre post ps ∧
      p.findAllFrom count last (.between pre post) = ps.map (Placed.toMatch text groups) := by
  induction count generalizing last pre post with
  | zero => omega
  | succ count ih =>
      rcases findAllFrom_succ h.consumes count last pre post with
        ⟨hall, hclear⟩ | ⟨gap, w, rest, gs, rfl, hfirst, hless, hall⟩
      · exact ⟨[], .done fun u v huv hb => hclear u v huv (h.starts_iff.mpr hb), hall⟩
      · obtain ⟨a, rfl, rfl⟩ := h.accepts_iff.mp hfirst.accepted
        obtain ⟨ps, hscan, hps⟩ :=
          ih (some (width (pre ++ gap ++ text a))) (pre ++ gap ++ text a) rest (by omega)
        refine ⟨⟨pre ++ gap, a, rest⟩ :: ps, .next (fun u v huv hv hb => ?_) hscan, ?_⟩
        · exact hfirst.clear u v huv hv (h.starts_iff.mpr hb)
        · rw [hall, hps]
          rfl

namespace Scan

/-- A scan cuts the text it reads at each of its tokens. -/
theorem eq_append {pre post : List Char} {ps : List (Placed α)} (h : Scan text pre post ps) :
    ∀ x ∈ ps, pre ++ post = x.before ++ text x.token ++ x.after ∧ pre <+: x.before := by
  induction h with
  | done => simp
  | @next pre gap rest a ps _ _ ih =>
      intro x hx
      rcases List.mem_cons.mp hx with rfl | hx
      · simp
      · obtain ⟨heq, hpre⟩ := ih x hx
        refine ⟨by simpa using heq, List.IsPrefix.trans ?_ hpre⟩
        rw [List.append_assoc]
        exact List.prefix_append _ _

/-- No token of a scan reaches beyond the start of a later one. -/
theorem pairwise {pre post : List Char} {ps : List (Placed α)} (h : Scan text pre post ps) :
    ps.Pairwise fun x y => x.before ++ text x.token <+: y.before := by
  induction h with
  | done => exact .nil
  | next _ hlater ih => exact List.pairwise_cons.mpr ⟨fun y hy => (hlater.eq_append y hy).2, ih⟩

/-- A token at the place where a scan starts is its first one. -/
theorem token {pre rest : List Char} {a : α} {ps : List (Placed α)}
    (later : Scan text (pre ++ text a) rest ps) :
    Scan text pre (text a ++ rest) (⟨pre, a, rest⟩ :: ps) := by
  have h := @next α text pre [] rest a ps (by simp)
  simp only [List.append_nil, List.nil_append] at h
  exact h later

/-- A scan passes over text in which no token begins. -/
theorem skip {pre u v : List Char} {ps : List (Placed α)} (h : Scan text pre (u ++ v) ps)
    (clear : ∀ u₁ u₂, u = u₁ ++ u₂ → u₂ ≠ [] → ¬ Begins text (u₂ ++ v)) :
    Scan text (pre ++ u) v ps := by
  generalize hpost : u ++ v = post at h
  cases h with
  | done clear' => exact .done fun s t hst => clear' (u ++ s) t (by simp [← hpost, hst])
  | @next _ gap rest a ps clear' later =>
      rw [List.append_assoc] at hpost
      rcases List.append_eq_append_iff.mp hpost with ⟨g, rfl, rfl⟩ | ⟨w, rfl, hw⟩
      · rw [← List.append_assoc g, ← List.append_assoc pre]
        refine .next (fun s t hst ht => ?_) (by simpa using later)
        exact clear' (u ++ s) t (by simp [hst]) ht
      · by_cases hw0 : w = []
        · subst hw0
          rw [List.nil_append] at hw
          rw [List.append_nil, ← hw]
          exact later.token
        · exact absurd ⟨a, rest, hw.symm⟩ (clear gap w rfl hw0)

/-- A scan reports every token of the text, unless an earlier token that it reports reaches into
or beyond the place where it starts. -/
theorem mem_or_hidden (h : Spells p text groups) {pre post : List Char} {ps : List (Placed α)}
    (hs : Scan text pre post ps) {before after : List Char} {a : α}
    (heq : pre ++ post = before ++ text a ++ after) (hpre : pre <+: before) :
    ⟨before, a, after⟩ ∈ ps ∨
      ∃ x ∈ ps, width x.before < width before ∧ width before < width (x.before ++ text x.token) := by
  induction hs with
  | @done pre post clear =>
      obtain ⟨u, rfl⟩ := hpre
      simp only [List.append_assoc, List.append_cancel_left_eq] at heq
      exact absurd ⟨a, after, rfl⟩ (clear u _ heq)
  | @next pre gap rest b ps clear later ih =>
      obtain ⟨u, rfl⟩ := hpre
      simp only [List.append_assoc, List.append_cancel_left_eq] at heq
      rcases lt_trichotomy (width u) (width gap) with hlt | hw | hlt
      · -- a token in the gap would have been met first
        obtain ⟨v, rfl⟩ := prefix_of_width_le heq.symm hlt.le
        have hv : v ≠ [] := by rintro rfl; simp at hlt
        simp only [List.append_assoc, List.append_cancel_left_eq] at heq
        exact absurd ⟨a, after, by simpa using heq⟩ (clear u v rfl hv)
      · obtain ⟨rfl, hrest⟩ := append_inj_of_width heq hw.symm
        obtain rfl := h.unambiguous hrest
        obtain rfl := List.append_cancel_left hrest
        exact .inl (by simp)
      · by_cases hcover : width (gap ++ text b) ≤ width u
        · obtain ⟨v, rfl⟩ := prefix_of_width_le (by simpa using heq) hcover
          have := ih (by simpa using heq) (by simp)
          rcases this with hmem | ⟨x, hx, hbefore, hafter⟩
          · refine .inl (List.mem_cons_of_mem _ ?_)
            simpa using hmem
          · exact .inr ⟨x, by simp [hx], hbefore, hafter⟩
        · refine .inr ⟨⟨pre ++ gap, b, rest⟩, by simp, ?_, ?_⟩
          · simp only [width_append]; omega
          · simp only [width_append] at hcover ⊢; omega

/-- The scan is determined by the text. -/
theorem unique (h : Spells p text groups) {pre post : List Char} {ps qs : List (Placed α)}
    (hp : Scan text pre post ps) (hq : Scan text pre post qs) : ps = qs := by
  induction hp generalizing qs with
  | done clear =>
      cases hq with
      | done => rfl
      | @next _ gap rest a qs _ _ =>
          exact absurd ⟨a, rest, rfl⟩ (clear gap (text a ++ rest) (by simp))
  | @next pre gap rest a ps clear later ih =>
      generalize hpost : gap ++ text a ++ rest = post at hq
      cases hq with
      | done clear' => exact absurd ⟨a, rest, rfl⟩ (clear' gap _ (by simp [← hpost]))
      | @next _ gap' rest' b qs clear' later' =>
          have hgap : width gap = width gap' := by
            by_contra hne
            rcases lt_or_gt_of_ne hne with hlt | hlt
            · obtain ⟨v, rfl⟩ := prefix_of_width_le (by simpa using hpost) hlt.le
              have hv : v ≠ [] := by rintro rfl; simp at hlt
              refine clear' gap v rfl hv ⟨a, rest, ?_⟩
              simpa using hpost.symm
            · obtain ⟨v, rfl⟩ := prefix_of_width_le (by simpa using hpost.symm) hlt.le
              have hv : v ≠ [] := by rintro rfl; simp at hlt
              refine clear gap' v rfl hv ⟨b, rest', ?_⟩
              simpa using hpost
          obtain ⟨rfl, hrest⟩ := append_inj_of_width (by simpa using hpost) hgap
          obtain rfl := h.unambiguous hrest
          obtain rfl := List.append_cancel_left hrest
          rw [ih later']

end Scan

/-- The matches of a pattern that spells tokens are those of the scan of the text. -/
theorem Spells.findAll_eq (h : Spells p text groups) {s : List Char} {ps : List (Placed α)}
    (hs : Scan text [] s ps) : p.findAll s = ps.map (Placed.toMatch text groups) := by
  obtain ⟨qs, hqs, heq⟩ := h.exists_scan_findAllFrom _ none [] s (Nat.lt_succ_self _)
  rw [hs.unique h hqs]
  exact heq

/-- Every text has a scan, from any place on. -/
theorem Spells.exists_scan_from (h : Spells p text groups) (pre post : List Char) :
    ∃ ps, Scan text pre post ps := by
  obtain ⟨ps, hps, -⟩ := h.exists_scan_findAllFrom _ none pre post (Nat.lt_succ_self _)
  exact ⟨ps, hps⟩

/-- Every text has a scan. -/
theorem Spells.exists_scan (h : Spells p text groups) (s : List Char) :
    ∃ ps, Scan text [] s ps := h.exists_scan_from [] s

end tokens

/-! ## Tokens in a row -/

section rows

variable {α : Type}

/-- The tokens stand in a text one after the other, the text after `pre`. -/
inductive Row (text : α → List Char) : List Char → List Char → List (Placed α) → Prop
  | nil (pre post : List Char) : Row text pre post []
  | cons {pre gap rest after : List Char} {a : α} {ps : List (Placed α)}
      (later : Row text (pre ++ gap ++ text a) rest ps) :
      Row text pre (gap ++ text a ++ rest) (⟨pre ++ gap, a, after⟩ :: ps)

variable {text : α → List Char}

/-- The tokens of a scan stand in a row. -/
theorem Scan.row {pre post : List Char} {ps : List (Placed α)} (h : Scan text pre post ps) :
    Row text pre post ps := by
  induction h with
  | done => exact .nil _ _
  | next _ _ ih => exact .cons ih

namespace Row

/-- Tokens can be taken away from in front of a text. -/
theorem extend {pre gap post : List Char} {ps : List (Placed α)}
    (h : Row text (pre ++ gap) post ps) : Row text pre (gap ++ post) ps := by
  generalize hpre : pre ++ gap = start at h
  cases h with
  | nil => exact .nil _ _
  | @cons _ gap' rest after a ps later =>
      subst hpre
      have hrow := @cons α text pre (gap ++ gap') rest after a ps (by simpa using later)
      simpa using hrow

/-- Text can be added behind a row. -/
theorem append_right {pre post : List Char} {ps : List (Placed α)} (h : Row text pre post ps)
    (w : List Char) : Row text pre (post ++ w) ps := by
  induction h with
  | nil => exact .nil _ _
  | cons _ ih =>
      rw [List.append_assoc]
      exact .cons ih

/-- Some of the tokens of a row stand in a row. -/
theorem filter {pre post : List Char} {ps : List (Placed α)} (h : Row text pre post ps)
    (keep : Placed α → Bool) : Row text pre post (ps.filter keep) := by
  induction h with
  | nil => exact .nil _ _
  | @cons pre gap rest after a ps _ ih =>
      rw [List.filter_cons]
      split_ifs
      · exact .cons ih
      · rw [List.append_assoc pre] at ih
        exact ih.extend

/-- The tokens of a row start after the text before it. -/
theorem prefix_before {pre post : List Char} {ps : List (Placed α)} (h : Row text pre post ps) :
    ∀ x ∈ ps, pre <+: x.before ∧ x.before ++ text x.token <+: pre ++ post := by
  induction h with
  | nil => simp
  | @cons pre gap rest after a ps _ ih =>
      intro x hx
      rcases List.mem_cons.mp hx with rfl | hx
      · exact ⟨List.prefix_append _ _, ⟨rest, by simp⟩⟩
      · obtain ⟨hpre, hpost⟩ := ih x hx
        refine ⟨List.IsPrefix.trans ?_ hpre, by simpa using hpost⟩
        rw [List.append_assoc]
        exact List.prefix_append _ _

/-- A row can be cut at a place that no token reaches across. -/
theorem exists_cut {pre u v : List Char} {ps : List (Placed α)} (h : Row text pre (u ++ v) ps)
    (hcut : ∀ x ∈ ps, width (pre ++ u) ≤ width x.before ∨
      width (x.before ++ text x.token) ≤ width (pre ++ u)) :
    ∃ ps₁ ps₂, ps = ps₁ ++ ps₂ ∧ Row text pre u ps₁ ∧ Row text (pre ++ u) v ps₂ := by
  generalize hpost : u ++ v = post at h
  induction h generalizing u with
  | nil => exact ⟨[], [], rfl, .nil _ _, .nil _ _⟩
  | @cons pre gap rest after a ps later ih =>
      rcases hcut _ (List.mem_cons_self ..) with hstart | hstop
      · -- the first token starts after the place, and so do all others
        obtain ⟨g, rfl⟩ : u <+: gap := by
          refine prefix_of_width_le (by simpa using hpost) ?_
          simpa using hstart
        simp only [List.append_assoc, List.append_cancel_left_eq] at hpost
        subst hpost
        refine ⟨[], _, rfl, .nil _ _, ?_⟩
        have hrow := @cons α text (pre ++ u) g rest after a ps (by simpa using later)
        simpa using hrow
      · obtain ⟨u, rfl⟩ : gap ++ text a <+: u := by
          refine prefix_of_width_le (by simpa using hpost.symm) ?_
          simpa [Nat.add_assoc] using hstop
        simp only [List.append_assoc, List.append_cancel_left_eq] at hpost
        obtain ⟨ps₁, ps₂, rfl, h₁, h₂⟩ := ih
          (fun x hx => by simpa using hcut x (List.mem_cons_of_mem _ hx)) hpost
        refine ⟨_ :: ps₁, ps₂, rfl, ?_, by simpa using h₂⟩
        exact .cons h₁

/-- A row can be cut at each of its tokens. -/
theorem exists_cut_of_mem {pre post : List Char} {ps : List (Placed α)} (h : Row text pre post ps)
    {x : Placed α} (hx : x ∈ ps) : ∃ ps₁ ps₂ u v, ps = ps₁ ++ x :: ps₂ ∧ x.before = pre ++ u ∧
      post = u ++ text x.token ++ v ∧ Row text pre u ps₁ ∧
      Row text (x.before ++ text x.token) v ps₂ := by
  induction h with
  | nil => cases hx
  | @cons pre gap rest after a ps later ih =>
      rcases List.mem_cons.mp hx with rfl | hx
      · exact ⟨[], ps, gap, rest, rfl, rfl, rfl, .nil _ _, later⟩
      · obtain ⟨ps₁, ps₂, u, v, rfl, hbefore, rfl, h₁, h₂⟩ := ih hx
        exact ⟨_ :: ps₁, ps₂, gap ++ text a ++ u, v, rfl, by simp [hbefore], by simp, .cons h₁, h₂⟩

/-- Where the tokens of a row start and end. -/
theorem width_bounds {pre post : List Char} {ps : List (Placed α)} (h : Row text pre post ps)
    {x : Placed α} (hx : x ∈ ps) : width pre ≤ width x.before ∧
      width (x.before ++ text x.token) ≤ width (pre ++ post) := by
  obtain ⟨⟨s, hs⟩, t, ht⟩ := h.prefix_before x hx
  constructor
  · rw [← hs, width_append]
    omega
  · rw [← ht, width_append _ t]
    omega

/-- Two tokens of a row are one, or one of them ends before the other starts. -/
theorem eq_or_apart {pre post : List Char} {ps : List (Placed α)} (h : Row text pre post ps)
    {x y : Placed α} (hx : x ∈ ps) (hy : y ∈ ps) :
    x = y ∨ width (x.before ++ text x.token) ≤ width y.before ∨
      width (y.before ++ text y.token) ≤ width x.before := by
  induction h with
  | nil => cases hx
  | cons later ih =>
      rcases List.mem_cons.mp hx with rfl | hx
      · rcases List.mem_cons.mp hy with rfl | hy
        · exact .inl rfl
        · exact .inr (.inl (later.width_bounds hy).1)
      · rcases List.mem_cons.mp hy with rfl | hy
        · exact .inr (.inr (later.width_bounds hx).1)
        · exact ih hx hy

/-- No token stands in the empty text. -/
theorem eq_nil {pre : List Char} {ps : List (Placed α)} (h : Row text pre [] ps)
    (hne : ∀ a, text a ≠ []) : ps = [] := by
  generalize hpost : ([] : List Char) = post at h
  cases h with
  | nil => rfl
  | @cons _ _ _ _ a _ _ =>
      simp only [List.nil_eq, List.append_eq_nil_iff] at hpost
      exact absurd hpost.1.2 (hne a)

/-- Tokens that lie in a part of a text stand in a row there. -/
theorem restrict {pre part post : List Char} {ps : List (Placed α)}
    (h : Row text [] (pre ++ (part ++ post)) ps) (hne : ∀ a, text a ≠ [])
    (hin : ∀ x ∈ ps, width pre ≤ width x.before ∧
      width (x.before ++ text x.token) ≤ width (pre ++ part)) : Row text pre part ps := by
  obtain ⟨ps₁, ps₂, rfl, h₁, h₂⟩ := h.exists_cut fun x hx => .inl (hin x hx).1
  rw [List.nil_append] at h₂
  obtain ⟨ps₂, ps₃, rfl, hrow, h₃⟩ := h₂.exists_cut fun x hx =>
    .inr (hin x (List.mem_append_right _ hx)).2
  -- a token takes bytes, so none lies before the part or after it
  have hnil₁ : ps₁ = [] := by
    refine List.eq_nil_iff_forall_not_mem.mpr fun x hx => ?_
    have hstop := (h₁.width_bounds hx).2
    have hstart := (hin x (by simp [hx])).1
    have := width_pos (hne x.token)
    simp only [List.nil_append, width_append] at hstop
    omega
  have hnil₃ : ps₃ = [] := by
    refine List.eq_nil_iff_forall_not_mem.mpr fun x hx => ?_
    have hstart := (h₃.width_bounds hx).1
    have hstop := (hin x (by simp [hx])).2
    have := width_pos (hne x.token)
    rw [width_append _ (text x.token)] at hstop
    omega
  subst hnil₁ hnil₃
  simpa using hrow

end Row

end rows

end GodotLint.Pattern
