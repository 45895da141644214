import GodotLint.Proofs.Pattern.Scan

/-!
# Occurrences of a pattern

A pattern occurs wherever it accepts something (`Occurs`), and at each place where it does it has one
match, the one that it prefers there (`IsMatchIn`). A search finds the match that starts first
(`find?_eq_some_iff`). A reader of all matches goes on behind each of them and so never looks at a place
that a match covers. For a pattern that asks for a character nothing else is passed over
(`exists_covers_of_starts`), and no match reaches into a later one (`stop_le_start_of_mem`).
-/

namespace GodotLint.Pattern

open Text

variable {p : Pattern} {s pre post : List Char} {m n : Match}

/-! ## What is accepted -/

/-- A pattern accepts a match where it stands in a text. -/
def Occurs (p : Pattern) (s : List Char) (m : Match) : Prop :=
  ∃ a w b gs, s = a ++ w ++ b ∧ p.Accepts a w b gs ∧ m = .of a w b gs

/-- The matches from a place on are accepted where they stand. -/
theorem occurs_of_mem_findAllFrom {count : Nat} {last : Option Nat}
    (h : m ∈ p.findAllFrom count last (.between pre post)) :
    p.Occurs (pre ++ post) m := by
  induction count generalizing last pre post with
  | zero => simp [findAllFrom] at h
  | succ count ih =>
      simp only [findAllFrom, Cursor.between_previous, Cursor.between_offset, Cursor.between_rest] at h
      cases hfind : p.findFrom? pre.getLast? (width pre) post with
      | none => simp [hfind] at h
      | some found =>
          obtain ⟨gap, w, rest, gs, rfl, rfl, hfirst⟩ := findFrom?_eq_some hfind
          have hfound : p.Occurs (pre ++ (gap ++ w ++ rest)) (.of (pre ++ gap) w rest gs) :=
            ⟨pre ++ gap, w, rest, gs, by simp, hfirst.accepted, rfl⟩
          have hlater : ∀ {last}, m ∈ p.findAllFrom count last (.between (pre ++ gap ++ w) rest) →
              p.Occurs (pre ++ (gap ++ w ++ rest)) m := by
            intro last hm
            simpa using ih hm
          -- after an empty match the search goes on one character further
          have hnext : ∀ {last step}, (Cursor.between (pre ++ gap ++ w) rest).next? = some step →
              m ∈ p.findAllFrom count last step.2 → p.Occurs (pre ++ (gap ++ w ++ rest)) m := by
            intro last step hstep hm
            cases rest with
            | nil => simp [Cursor.next?_between_nil] at hstep
            | cons x rest =>
                rw [Cursor.next?_between_cons, Option.some.injEq] at hstep
                subst hstep
                simpa using ih hm
          rw [hfind] at h
          simp only [Match.of_after] at h
          split_ifs at h
          · exact (List.mem_cons.mp h).elim (· ▸ hfound) hlater
          · split at h
            · simp at h
            · exact hnext ‹_› h
          · rcases List.mem_cons.mp h with rfl | h
            · exact hfound
            · split at h
              · simp at h
              · exact hnext ‹_› h

/-- The matches in a text are accepted where they stand. -/
theorem occurs_of_mem_findAll (h : m ∈ p.findAll s) :
    p.Occurs s m := by
  rw [← List.nil_append s]
  exact occurs_of_mem_findAllFrom h

theorem occurs_of_find? (h : p.find? s = some m) :
    p.Occurs s m :=
  find?_eq_some h

/-! ## Places -/

/-- The match that starts at some place of a text. -/
def IsMatchIn (p : Pattern) (s : List Char) (m : Match) : Prop :=
  ∃ pre post, s = pre ++ post ∧ p.matchAt? (.between pre post) = some m

theorem IsMatchIn.occurs (h : p.IsMatchIn s m) : p.Occurs s m := by
  obtain ⟨pre, post, rfl, hm⟩ := h
  obtain ⟨w, rest, gs, rfl, hacc, rfl⟩ := exists_accepts_of_matchAt? hm
  exact ⟨pre, w, rest, gs, by simp, hacc, rfl⟩

/-- Where a pattern accepts something, it has a match. -/
theorem exists_isMatchIn (h : p.Starts pre post) :
    ∃ m, p.IsMatchIn (pre ++ post) m ∧ m.start = width pre := by
  obtain ⟨m, hm⟩ := Option.isSome_iff_exists.mp (matchAt?_isSome_iff.mpr h)
  obtain ⟨w, rest, gs, -, -, rfl⟩ := exists_accepts_of_matchAt? hm
  exact ⟨_, ⟨pre, post, rfl, hm⟩, rfl⟩

/-- The place of a match. -/
theorem IsMatchIn.exists_starts (h : p.IsMatchIn s m) :
    ∃ pre post, s = pre ++ post ∧ p.Starts pre post ∧ m.start = width pre := by
  obtain ⟨pre, w, post, gs, rfl, hacc, rfl⟩ := h.occurs
  exact ⟨pre, w ++ post, by simp, ⟨w, post, gs, rfl, hacc⟩, rfl⟩

/-- At one place there is one match. -/
theorem IsMatchIn.eq_of_start_eq (hm : p.IsMatchIn s m) (hn : p.IsMatchIn s n)
    (h : m.start = n.start) : m = n := by
  obtain ⟨pre, post, rfl, hm⟩ := hm
  obtain ⟨pre', post', hs, hn⟩ := hn
  obtain ⟨w, rest, gs, -, -, rfl⟩ := exists_accepts_of_matchAt? hm
  obtain ⟨w', rest', gs', -, -, rfl⟩ := exists_accepts_of_matchAt? hn
  obtain ⟨rfl, rfl⟩ := append_inj_of_width hs h
  exact Option.some.inj (hm.symm.trans hn)

/-! ## The first match -/

/-- Where the pattern starts, a gap in which it does not start has ended. -/
theorem width_le_of_starts {gap w rest a b : List Char}
    (clear : ∀ u v, gap = u ++ v → v ≠ [] → ¬ p.Starts (pre ++ u) (v ++ w ++ rest))
    (hstarts : p.Starts (pre ++ a) b) (heq : gap ++ w ++ rest = a ++ b) : width gap ≤ width a := by
  by_contra hlt
  rw [not_le] at hlt
  obtain ⟨v, rfl⟩ := prefix_of_width_le (by simpa using heq.symm) hlt.le
  have hv : v ≠ [] := by
    rintro rfl
    simp at hlt
  rw [List.append_assoc, List.append_assoc, List.append_cancel_left_eq, ← List.append_assoc] at heq
  exact clear a v rfl hv (heq ▸ hstarts)

/-- Nothing is found exactly if there is no match. -/
theorem find?_eq_none_iff : p.find? s = none ↔ ∀ m, ¬ p.IsMatchIn s m := by
  have hnone := @findFrom?_eq_none_iff p [] s
  change p.find? s = none ↔ _ at hnone
  rw [hnone]
  constructor
  · intro h m hm
    obtain ⟨pre, post, rfl, hstarts, -⟩ := hm.exists_starts
    exact h pre post rfl hstarts
  · rintro h u v rfl hstarts
    obtain ⟨m, hm, -⟩ := exists_isMatchIn hstarts
    exact h m hm

/-- **A search finds the match that starts first.** -/
theorem find?_eq_some_iff :
    p.find? s = some m ↔ p.IsMatchIn s m ∧ ∀ n, p.IsMatchIn s n → m.start ≤ n.start := by
  have hfound : ∀ m, p.find? s = some m →
      p.IsMatchIn s m ∧ ∀ n, p.IsMatchIn s n → m.start ≤ n.start := by
    intro m hm
    obtain ⟨u, w, rest, gs, rfl, rfl, hfirst⟩ := @findFrom?_eq_some p m [] s hm
    refine ⟨⟨u, w ++ rest, by simp, hfirst.matched⟩, fun n hn => ?_⟩
    obtain ⟨pre, post, hs, hstarts, hstart⟩ := hn.exists_starts
    rw [hstart]
    exact width_le_of_starts hfirst.clear hstarts hs
  refine ⟨hfound m, fun ⟨hm, hfirst⟩ => ?_⟩
  cases hfind : p.find? s with
  | none => exact absurd hm (find?_eq_none_iff.mp hfind m)
  | some n =>
      obtain ⟨hn, hleast⟩ := hfound n hfind
      rw [hm.eq_of_start_eq hn (le_antisymm (hfirst n hn) (hleast m hm))]

/-! ## Patterns that consume -/

/-- The pattern asks for a character on every way through it. -/
def isConsuming : Pattern → Bool
  | .char _ => true
  | .any => true
  | .oneOf _ => true
  | .noneOf _ => true
  | .seq p q => p.isConsuming || q.isConsuming
  | .alt p q => p.isConsuming && q.isConsuming
  | .plus p => p.isConsuming
  | .lazyPlus p => p.isConsuming
  | .group _ p => p.isConsuming
  | _ => false

theorem consumes_single (P : Char → Bool) : Consumes (Single P) := by
  rintro pre w post gs ⟨x, rfl, -, -⟩
  exact List.cons_ne_nil x []

theorem Consumes.followed_left {R S : Acceptance} (h : Consumes R) : Consumes (Followed R S) := by
  rintro pre w post gs ⟨u, v, gu, -, rfl, -, hu, -⟩ hnil
  exact h pre u (v ++ post) gu hu (List.append_eq_nil_iff.mp hnil).1

theorem Consumes.followed_right {R S : Acceptance} (h : Consumes S) : Consumes (Followed R S) := by
  rintro pre w post gs ⟨u, v, -, gv, rfl, -, -, hv⟩ hnil
  exact h (pre ++ u) v post gv hv (List.append_eq_nil_iff.mp hnil).2

theorem consumes_of_isConsuming (h : p.isConsuming = true) : Consumes p.Accepts := by
  induction p with
  | char c => exact consumes_single _
  | any => exact consumes_single _
  | oneOf items => exact consumes_single _
  | noneOf items => exact consumes_single _
  | empty | atStart | atEnd | wordEdge | opt | star => cases h
  | seq p q ihp ihq =>
      rcases Bool.or_eq_true_iff.mp h with h | h
      · exact (ihp h).followed_left
      · exact (ihq h).followed_right
  | alt p q ihp ihq =>
      obtain ⟨hp, hq⟩ := Bool.and_eq_true_iff.mp h
      exact fun pre w post gs hacc => hacc.elim (ihp hp _ _ _ _) (ihq hq _ _ _ _)
  | plus p ihp => exact (ihp h).followed_left
  | lazyPlus p ihp => exact (ihp h).followed_left
  | group index p ihp =>
      rintro pre w post gs ⟨g, hacc, -⟩
      exact ihp h _ _ _ _ hacc

/-! ## Characters that a pattern does without -/

/-- No text that is accepted has the character `c`. -/
def avoids (c : Char) : Pattern → Bool
  | .char d => d != c
  | .any => c == '\n'
  | .oneOf items => !items.any (·.holds c)
  | .noneOf items => items.any (·.holds c)
  | .seq p q => p.avoids c && q.avoids c
  | .alt p q => p.avoids c && q.avoids c
  | .opt p => p.avoids c
  | .star p => p.avoids c
  | .plus p => p.avoids c
  | .lazyPlus p => p.avoids c
  | .group _ p => p.avoids c
  | _ => true

theorem not_mem_of_repeats {R : Acceptance} {c : Char} {pre w post : List Char}
    {gs : List (Nat × Span)} (hR : ∀ pre w post gs, R pre w post gs → c ∉ w)
    (h : Repeats R pre w post gs) : c ∉ w := by
  induction h with
  | none => exact List.not_mem_nil
  | more first _ _ ih => exact fun hc => (List.mem_append.mp hc).elim (hR _ _ _ _ first) ih

theorem not_mem_of_avoids {p : Pattern} {c : Char} (h : p.avoids c = true) :
    ∀ pre w post gs, p.Accepts pre w post gs → c ∉ w := by
  have hsingle : ∀ {P : Char → Bool}, P c = false →
      ∀ pre w post gs, Single P pre w post gs → c ∉ w := by
    rintro P hP pre w post gs ⟨x, rfl, hx, -⟩ hc
    rw [List.mem_singleton] at hc
    rw [← hc, hP] at hx
    cases hx
  induction p with
  | char d =>
      change (d != c) = true at h
      exact hsingle (by simpa using Ne.symm (bne_iff_ne.mp h))
  | any =>
      change (c == '\n') = true at h
      exact hsingle (by simpa using h)
  | oneOf items =>
      change (!items.any (·.holds c)) = true at h
      exact hsingle (by simpa using h)
  | noneOf items =>
      change items.any (·.holds c) = true at h
      exact hsingle (by simpa using h)
  | empty | atStart | atEnd | wordEdge =>
      rintro pre w post gs ⟨rfl, -, -⟩
      exact List.not_mem_nil
  | seq p q ihp ihq =>
      obtain ⟨hp, hq⟩ := Bool.and_eq_true_iff.mp h
      rintro pre w post gs ⟨u, v, gu, gv, rfl, -, hu, hv⟩ hc
      exact (List.mem_append.mp hc).elim (ihp hp _ _ _ _ hu) (ihq hq _ _ _ _ hv)
  | alt p q ihp ihq =>
      obtain ⟨hp, hq⟩ := Bool.and_eq_true_iff.mp h
      exact fun pre w post gs hacc => hacc.elim (ihp hp _ _ _ _) (ihq hq _ _ _ _)
  | opt p ihp =>
      rintro pre w post gs (hacc | ⟨rfl, -⟩)
      · exact ihp h _ _ _ _ hacc
      · exact List.not_mem_nil
  | star p ihp => exact fun pre w post gs => not_mem_of_repeats (ihp h)
  | plus p ihp | lazyPlus p ihp =>
      rintro pre w post gs ⟨u, v, gu, gv, rfl, -, hu, hv⟩ hc
      exact (List.mem_append.mp hc).elim (ihp h _ _ _ _ hu) (not_mem_of_repeats (ihp h) hv)
  | group index p ihp =>
      rintro pre w post gs ⟨g, hacc, -⟩
      exact ihp h _ _ _ _ hacc

/-! ## Groups that a pattern does without -/

/-- The groups that a pattern may remember. -/
def indices : Pattern → List Nat
  | .seq p q => p.indices ++ q.indices
  | .alt p q => p.indices ++ q.indices
  | .opt p => p.indices
  | .star p => p.indices
  | .plus p => p.indices
  | .lazyPlus p => p.indices
  | .group index p => index :: p.indices
  | _ => []

/-- Whatever is remembered is a group that belongs to one of some. -/
def Remembers (R : Acceptance) (indices : List Nat) : Prop :=
  ∀ pre w post gs, R pre w post gs → ∀ g ∈ gs, g.1 ∈ indices

theorem Remembers.repeats {R : Acceptance} {indices : List Nat} (hR : Remembers R indices) :
    Remembers (Repeats R) indices := by
  intro pre w post gs h
  induction h with
  | none => simp
  | more first _ _ ih =>
      intro g hg
      rcases List.mem_append.mp hg with hg | hg
      · exact ih g hg
      · exact hR _ _ _ _ first g hg

theorem Remembers.followed {R S : Acceptance} {is js : List Nat} (hR : Remembers R is)
    (hS : Remembers S js) : Remembers (Followed R S) (is ++ js) := by
  rintro pre w post gs ⟨u, v, gu, gv, rfl, rfl, hu, hv⟩ g hg
  rcases List.mem_append.mp hg with hg | hg
  · exact List.mem_append_right _ (hS _ _ _ _ hv g hg)
  · exact List.mem_append_left _ (hR _ _ _ _ hu g hg)

theorem remembers_indices (p : Pattern) : Remembers p.Accepts p.indices := by
  induction p with
  | empty | atStart | atEnd | wordEdge =>
      rintro pre w post gs ⟨-, rfl, -⟩
      simp
  | char | any | oneOf | noneOf =>
      rintro pre w post gs ⟨x, -, -, rfl⟩
      simp
  | seq p q ihp ihq => exact ihp.followed ihq
  | alt p q ihp ihq =>
      rintro pre w post gs (h | h) g hg
      · exact List.mem_append_left _ (ihp _ _ _ _ h g hg)
      · exact List.mem_append_right _ (ihq _ _ _ _ h g hg)
  | opt p ihp =>
      rintro pre w post gs (h | ⟨-, rfl⟩)
      · exact ihp _ _ _ _ h
      · simp
  | star p ihp => exact ihp.repeats
  | plus p ihp | lazyPlus p ihp =>
      have h := ihp.followed ihp.repeats
      intro pre w post gs hacc g hg
      simpa [indices] using h pre w post gs hacc g hg
  | group index p ihp =>
      rintro pre w post gs ⟨g, hacc, rfl⟩ x hx
      rcases List.mem_cons.mp hx with rfl | hx
      · exact List.mem_cons_self
      · exact List.mem_cons_of_mem _ (ihp _ _ _ _ hacc x hx)

/-- A group that does not belong to a pattern is not remembered. -/
theorem lookup_eq_none_of_accepts {p : Pattern} {pre w post : List Char} {gs : List (Nat × Span)}
    (h : p.Accepts pre w post gs) {index : Nat} (hindex : index ∉ p.indices) :
    gs.lookup index = none := by
  rw [List.lookup_eq_none_iff]
  intro x hx
  rw [bne_iff_ne]
  rintro rfl
  exact hindex (remembers_indices p _ _ _ _ h x hx)

/-! ## Patterns for the start of a text -/

/-- The pattern asks for the start of the text before anything else. -/
def isAnchored : Pattern → Bool
  | .atStart => true
  | .seq p _ => p.isAnchored
  | .alt p q => p.isAnchored && q.isAnchored
  | .plus p => p.isAnchored
  | .lazyPlus p => p.isAnchored
  | .group _ p => p.isAnchored
  | _ => false

theorem eq_nil_of_isAnchored (h : p.isAnchored = true) :
    ∀ pre w post gs, p.Accepts pre w post gs → pre = [] := by
  induction p with
  | atStart => exact fun _ _ _ _ hacc => hacc.2.2
  | empty | char | any | oneOf | noneOf | atEnd | wordEdge | opt | star => cases h
  | seq p q ihp _ | plus p ihp | lazyPlus p ihp =>
      rintro pre w post gs ⟨u, v, gu, gv, -, -, hu, -⟩
      exact ihp h _ _ _ _ hu
  | alt p q ihp ihq =>
      obtain ⟨hp, hq⟩ := Bool.and_eq_true_iff.mp h
      exact fun pre w post gs hacc => hacc.elim (ihp hp _ _ _ _) (ihq hq _ _ _ _)
  | group index p ihp =>
      rintro pre w post gs ⟨g, hacc, -⟩
      exact ihp h _ _ _ _ hacc

/-- Such a pattern has its match at the start. -/
theorem IsMatchIn.start_eq_zero (hm : p.IsMatchIn s m) (h : p.isAnchored = true) :
    m.start = 0 := by
  obtain ⟨a, w, b, gs, rfl, hacc, rfl⟩ := hm.occurs
  rw [Match.of_start, eq_nil_of_isAnchored h _ _ _ _ hacc, width_nil]

/-! ## All matches -/

/-- The matches that a reader meets who has read `pre` and has `post` before him: the one that starts
first, and then those in the text behind it. -/
inductive Sweep (p : Pattern) : List Char → List Char → List Match → Prop
  | done {pre post : List Char} (clear : ∀ u v, post = u ++ v → ¬ p.Starts (pre ++ u) v) :
      Sweep p pre post []
  | next {pre gap w rest : List Char} {gs : List (Nat × Span)} {ms : List Match}
      (clear : ∀ u v, gap = u ++ v → v ≠ [] → ¬ p.Starts (pre ++ u) (v ++ w ++ rest))
      (accepted : p.Accepts (pre ++ gap) w rest gs)
      (later : Sweep p (pre ++ gap ++ w) rest ms) :
      Sweep p pre (gap ++ w ++ rest) (.of (pre ++ gap) w rest gs :: ms)

theorem sweep_findAllFrom (hp : Consumes p.Accepts) {count : Nat} {last : Option Nat}
    (hcount : post.length < count) :
    Sweep p pre post (p.findAllFrom count last (.between pre post)) := by
  induction count generalizing last pre post with
  | zero => omega
  | succ count ih =>
      rcases findAllFrom_succ hp count last pre post with
        ⟨hall, hclear⟩ | ⟨gap, w, rest, gs, rfl, hfirst, hless, hall⟩
      · rw [hall]
        exact .done hclear
      · rw [hall]
        exact .next hfirst.clear hfirst.accepted (ih (by omega))

/-- All matches of a pattern that consumes come from one sweep over the text. -/
theorem sweep_findAll (hp : Consumes p.Accepts) (s : List Char) : Sweep p [] s (p.findAll s) :=
  sweep_findAllFrom hp (Nat.lt_succ_self s.length)

namespace Sweep

variable {ms : List Match}

/-- A sweep meets nothing before the place where it starts. -/
theorem width_le_start (h : Sweep p pre post ms) (hm : m ∈ ms) : width pre ≤ m.start := by
  induction h with
  | done => cases hm
  | next _ _ _ ih =>
      rcases List.mem_cons.mp hm with rfl | hm
      · simp
      · have := ih hm
        simp only [width_append] at this
        omega

/-- No match reaches into a later one. -/
theorem stop_le_start (h : Sweep p pre post ms) (hm : m ∈ ms) (hn : n ∈ ms)
    (hlt : m.start < n.start) : m.stop ≤ n.start := by
  induction h with
  | done => cases hm
  | @next pre gap w rest gs ms _ _ later ih =>
      rcases List.mem_cons.mp hm with rfl | hm
      · rcases List.mem_cons.mp hn with rfl | hn
        · exact absurd hlt (lt_irrefl _)
        · exact later.width_le_start hn
      · rcases List.mem_cons.mp hn with rfl | hn
        · have := later.width_le_start hm
          simp only [Match.of_start, width_append] at this hlt
          omega
        · exact ih hm hn

/-- A place at which the pattern starts is covered by one of the matches. -/
theorem exists_covers {a b : List Char} (h : Sweep p pre post ms) (hstarts : p.Starts (pre ++ a) b)
    (hpost : post = a ++ b) : ∃ m ∈ ms, m.start ≤ width (pre ++ a) ∧ width (pre ++ a) < m.stop := by
  induction h generalizing a with
  | done clear => exact absurd hstarts (clear a b hpost)
  | @next pre gap w rest gs ms clear accepted later ih =>
      have hge := width_le_of_starts clear hstarts hpost
      rcases Nat.lt_or_ge (width a) (width (gap ++ w)) with hlt | hge
      · refine ⟨_, List.mem_cons_self, ?_, ?_⟩
        · simpa using hge
        · simp only [Match.of_stop, width_append] at hlt ⊢
          omega
      · obtain ⟨a, rfl⟩ := prefix_of_width_le hpost hge
        have hrest : rest = a ++ b := by simpa using hpost
        obtain ⟨m, hm, hcovers⟩ := ih (a := a) (by simpa using hstarts) hrest
        exact ⟨m, List.mem_cons_of_mem _ hm, by simpa using hcovers⟩

end Sweep

/-- **A place that is passed over is covered** by a match that starts before it, if the pattern
consumes. -/
theorem exists_covers_of_starts (hp : p.isConsuming = true) (h : p.Starts pre post) :
    ∃ m ∈ p.findAll (pre ++ post), m.start ≤ width pre ∧ width pre < m.stop := by
  have hsweep := sweep_findAll (consumes_of_isConsuming hp) (pre ++ post)
  simpa using hsweep.exists_covers (a := pre) (by simpa using h) rfl

/-- No match of a pattern that consumes reaches into another one that starts later. -/
theorem stop_le_start_of_mem (hp : p.isConsuming = true) (hm : m ∈ p.findAll s)
    (hn : n ∈ p.findAll s) (h : m.start < n.start) : m.stop ≤ n.start :=
  (sweep_findAll (consumes_of_isConsuming hp) s).stop_le_start hm hn h

end GodotLint.Pattern
