import GodotLint.Pattern.Basic
import GodotLint.Proofs.Pattern.Occurrences

/-!
# Replacing matches from left to right

A text in which every match of a pattern is replaced can be read off the text itself, character by character
(`Replaced`): where the pattern has a match, it is replaced as a whole, and where it has none the next
character stays. That is what the replacement of all matches gives, if the pattern consumes
(`replaced_replaceAll`).
-/

namespace GodotLint.Pattern

open Text

variable {p : Pattern} {f : Match → List Char} {pre post out : List Char}

/-- The text `out` is what becomes of `post`, the text behind `pre`. -/
inductive Replaced (p : Pattern) (f : Match → List Char) : List Char → List Char → List Char → Prop
  | done {pre : List Char} : Replaced p f pre [] []
  | skip {pre post out : List Char} {c : Char}
      (no_match : p.matchAt? (.between pre (c :: post)) = none)
      (later : Replaced p f (pre ++ [c]) post out) : Replaced p f pre (c :: post) (c :: out)
  | replace {pre w post out : List Char} {gs : List (Nat × Span)} (consumes : w ≠ [])
      (matched : p.matchAt? (.between pre (w ++ post)) = some (.of pre w post gs))
      (later : Replaced p f (pre ++ w) post out) :
      Replaced p f pre (w ++ post) (f (.of pre w post gs) ++ out)

/-- Text in which no match starts stays. -/
theorem Replaced.skips {gap : List Char}
    (clear : ∀ u v, gap = u ++ v → v ≠ [] → ¬ p.Starts (pre ++ u) (v ++ post))
    (h : Replaced p f (pre ++ gap) post out) : Replaced p f pre (gap ++ post) (gap ++ out) := by
  induction gap generalizing pre with
  | nil => simpa using h
  | cons c gap ih =>
      refine .skip (matchAt?_eq_none_iff.mpr ?_) (ih (fun u v hgap hv => ?_) (by simpa using h))
      · simpa using clear [] (c :: gap) rfl (List.cons_ne_nil c gap)
      · simpa using clear (c :: u) v (by simp [hgap]) hv

/-- The first match in a text is replaced, and then those in the text behind it. -/
theorem replaceMatches_cons {gap w after rest : List Char} {gs : List (Nat × Span)} {ms : List Match} :
    replaceMatches f (width pre) (gap ++ (w ++ rest)) (.of (pre ++ gap) w after gs :: ms) =
      gap ++ (f (.of (pre ++ gap) w after gs) ++
        replaceMatches f (width (pre ++ gap ++ w)) rest ms) := by
  have hstart : width (pre ++ gap) - width pre = width gap := by simp
  have hstop : width (pre ++ gap ++ w) - width pre = width (gap ++ w) := by
    simp only [width_append]
    omega
  rw [replaceMatches, Match.of_start, Match.of_stop, hstart, hstop, takeBytes_width_append,
    ← List.append_assoc gap, dropBytes_width_append, List.append_assoc]

theorem replaced_findAllFrom (hp : Consumes p.Accepts) {count : Nat} {last : Option Nat}
    (hcount : post.length < count) :
    Replaced p f pre post
      (replaceMatches f (width pre) post (p.findAllFrom count last (.between pre post))) := by
  induction count generalizing last pre post with
  | zero => omega
  | succ count ih =>
      rcases findAllFrom_succ hp count last pre post with
        ⟨hall, hclear⟩ | ⟨gap, w, rest, gs, rfl, hfirst, hless, hall⟩
      · have hskips : Replaced p f pre (post ++ []) (post ++ []) :=
          .skips (fun u v hpost _ => by simpa using hclear u v hpost) .done
        simpa [hall, replaceMatches] using hskips
      · rw [hall, List.append_assoc, replaceMatches_cons]
        refine .skips (fun u v hgap hv => ?_) ?_
        · simpa using hfirst.clear u v hgap hv
        · exact .replace (hp _ _ _ _ hfirst.accepted) hfirst.matched (ih (by omega))

/-- **The replacement of all matches goes from left to right.** -/
theorem replaced_replaceAll (hp : p.isConsuming = true) (s : List Char) :
    Replaced p f [] s (p.replaceAll f s) :=
  replaced_findAllFrom (consumes_of_isConsuming hp) (Nat.lt_succ_self s.length)

namespace Replaced

theorem eq_nil (h : Replaced p f pre [] out) : out = [] := by
  generalize hpost : ([] : List Char) = post at h
  cases h with
  | done => rfl
  | skip => cases hpost
  | replace consumes => exact absurd (List.append_eq_nil_iff.mp hpost.symm).1 consumes

/-- A character at which nothing matches stays. -/
theorem exists_of_none {c : Char} (h : Replaced p f pre (c :: post) out)
    (hnone : p.matchAt? (.between pre (c :: post)) = none) :
    ∃ out', out = c :: out' ∧ Replaced p f (pre ++ [c]) post out' := by
  generalize hs : c :: post = s at h
  cases h with
  | done => cases hs
  | skip _ later =>
      obtain ⟨rfl, rfl⟩ := List.cons.inj hs
      exact ⟨_, rfl, later⟩
  | replace _ matched _ =>
      rw [← hs, hnone] at matched
      cases matched

/-- A match is replaced. -/
theorem exists_of_some {w : List Char} {gs : List (Nat × Span)} (hw : w ≠ [])
    (h : Replaced p f pre (w ++ post) out)
    (hsome : p.matchAt? (.between pre (w ++ post)) = some (.of pre w post gs)) :
    ∃ out', out = f (.of pre w post gs) ++ out' ∧ Replaced p f (pre ++ w) post out' := by
  generalize hs : w ++ post = s at h
  cases h with
  | done => exact absurd (List.append_eq_nil_iff.mp hs).1 hw
  | skip no_match _ =>
      rw [← hs, hsome] at no_match
      cases no_match
  | replace _ matched later =>
      rw [← hs, hsome, Option.some.injEq] at matched
      have hwhole := congrArg Match.whole matched
      have hgroups := congrArg Match.groups matched
      simp only [Match.of_whole, Match.of_groups, Span.mk.injEq, true_and] at hwhole hgroups
      subst hwhole hgroups
      obtain rfl := List.append_cancel_left hs
      exact ⟨_, rfl, later⟩

/-- Nothing is left only of the empty text, if nothing is replaced by the empty text. -/
theorem eq_nil_iff (h : Replaced p f pre post out) (hf : ∀ m, f m ≠ []) : out = [] ↔ post = [] := by
  cases h with
  | done => simp
  | skip => simp
  | replace consumes => simp [hf, consumes]

end Replaced

end GodotLint.Pattern
