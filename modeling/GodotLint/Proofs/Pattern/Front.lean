import GodotLint.Proofs.Pattern.Occurrences
import GodotLint.Proofs.Pattern.Parts

/-!
# What a pattern makes of a character in front of it

Before a character a pattern may accept nothing at all, or no more than the empty text, or anything
(`Front`). This can be told from its parts (`front`). A search for a pattern that accepts nothing
before certain characters starts behind them (`findFrom?_skip`). A pattern that is anchored is looked
for at the start only (`find?_of_isAnchored`), and a repetition that goes first runs through such
characters as far as they are in its class, since what comes after it cannot go on before
(`run_star_skip`).
-/

namespace GodotLint.Pattern

open Text

/-! ## In front of a character -/

/-- What is accepted before some character. -/
inductive Front where
  | nothing
  /-- The empty text only. -/
  | empty
  | anything
  deriving DecidableEq, Repr

namespace Front

/-- What is accepted by one part and then by another. -/
def followedBy : Front → Front → Front
  | .nothing, _ => .nothing
  | .empty, f => f
  | .anything, _ => .anything

/-- What is accepted by one part or by another. -/
def orElse : Front → Front → Front
  | .nothing, f => f
  | .empty, .anything => .anything
  | .empty, _ => .empty
  | .anything, _ => .anything

/-- Whether a text is among what is accepted. -/
def Allows : Front → List Char → Prop
  | .nothing, _ => False
  | .empty, w => w = []
  | .anything, _ => True

variable {f g : Front} {w : List Char}

theorem Allows.orElse_left (h : f.Allows w) (g : Front) : (f.orElse g).Allows w := by
  cases f with
  | nothing => exact h.elim
  | anything => trivial
  | empty => cases g <;> first | exact h | trivial

theorem Allows.orElse_right (h : g.Allows w) (f : Front) : (f.orElse g).Allows w := by
  cases f with
  | nothing => exact h
  | anything => trivial
  | empty => cases g <;> first | exact h | exact h.elim

theorem allows_empty_orElse (f : Front) : (Front.empty.orElse f).Allows [] :=
  Allows.orElse_left (f := .empty) rfl f

end Front

/-- What a pattern accepts before the character `x`. -/
def front (x : Char) : Pattern → Front
  | .empty => .empty
  | .char c => if x == c then .anything else .nothing
  | .any => if x == '\n' then .nothing else .anything
  | .oneOf items => if items.any (·.holds x) then .anything else .nothing
  | .noneOf items => if items.any (·.holds x) then .nothing else .anything
  | .atStart => .empty
  | .atEnd => .empty
  | .wordEdge => .empty
  | .seq p q => (p.front x).followedBy (q.front x)
  | .alt p q => (p.front x).orElse (q.front x)
  | .opt p => .orElse .empty (p.front x)
  | .star p => .orElse .empty (p.front x)
  | .plus p => p.front x
  | .lazyPlus p => p.front x
  | .group _ p => p.front x

variable {p q : Pattern} {x : Char} {pre w post : List Char} {gs : List (Nat × Span)}

/-- One character that satisfies a test, if the one in front does. -/
theorem allows_of_single {P : Char → Bool} (hx : (w ++ post).head? = some x)
    (h : Single P pre w post gs) : (if P x then Front.anything else .nothing).Allows w := by
  obtain ⟨y, rfl, hy, -⟩ := h
  obtain rfl : y = x := Option.some.inj hx
  rw [if_pos hy]
  trivial

/-- Two parts one after the other: if the first accepts only the empty text, the character is still in
front of the second. -/
theorem allows_of_followed {R S : Acceptance} {f g : Front} (h : Followed R S pre w post gs)
    (hx : (w ++ post).head? = some x)
    (hR : ∀ pre w post gs, R pre w post gs → (w ++ post).head? = some x → f.Allows w)
    (hS : ∀ pre w post gs, S pre w post gs → (w ++ post).head? = some x → g.Allows w) :
    (f.followedBy g).Allows w := by
  obtain ⟨u, v, gu, gv, rfl, -, hu, hv⟩ := h
  rw [List.append_assoc] at hx
  have hfirst := hR _ _ _ _ hu hx
  cases f with
  | nothing => exact hfirst.elim
  | anything => trivial
  | empty =>
      obtain rfl : u = [] := hfirst
      exact hS _ _ _ _ hv hx

/-- Repetitions consume, so that a part that accepts only the empty text is not repeated. -/
theorem allows_of_repeats {R : Acceptance} {f : Front} (h : Repeats R pre w post gs)
    (hx : (w ++ post).head? = some x)
    (hR : ∀ pre w post gs, R pre w post gs → (w ++ post).head? = some x → f.Allows w) :
    (Front.empty.orElse f).Allows w := by
  cases h with
  | none => exact Front.allows_empty_orElse f
  | @more _ u v _ gu gv first consumes rest =>
      rw [List.append_assoc] at hx
      have hfirst := hR _ _ _ _ first hx
      cases f with
      | nothing => exact hfirst.elim
      | empty => exact absurd hfirst consumes
      | anything => trivial

/-- **What is accepted before a character is what the pattern says**, by induction over its parts. -/
theorem allows_of_accepts (h : p.Accepts pre w post gs) (hx : (w ++ post).head? = some x) :
    (p.front x).Allows w := by
  induction p generalizing pre w post gs with
  | empty | atStart | atEnd | wordEdge => exact h.1
  | char c => exact allows_of_single (P := (· == c)) hx h
  | any =>
      have hsingle := allows_of_single hx h
      unfold front
      by_cases hfeed : x = '\n' <;> simpa [hfeed] using hsingle
  | oneOf items => exact allows_of_single hx h
  | noneOf items =>
      have hsingle := allows_of_single hx h
      unfold front
      by_cases hholds : items.any (·.holds x) = true <;> simpa [hholds] using hsingle
  | seq p q ihp ihq =>
      exact allows_of_followed h hx (fun _ _ _ _ => ihp) (fun _ _ _ _ => ihq)
  | alt p q ihp ihq =>
      rcases h with h | h
      · exact (ihp h hx).orElse_left _
      · exact (ihq h hx).orElse_right _
  | opt p ihp =>
      rcases h with h | ⟨rfl, -⟩
      · exact (ihp h hx).orElse_right _
      · exact Front.allows_empty_orElse _
  | star p ihp => exact allows_of_repeats h hx (fun _ _ _ _ => ihp)
  | plus p ihp | lazyPlus p ihp =>
      have hboth := allows_of_followed h hx (fun _ _ _ _ => ihp)
        (fun _ _ _ _ h hx => allows_of_repeats h hx fun _ _ _ _ => ihp)
      unfold front
      revert hboth
      cases p.front x <;> exact id
  | group index p ihp =>
      obtain ⟨g, hacc, -⟩ := h
      exact ihp hacc hx

/-- A pattern that accepts nothing before a character does not start there. -/
theorem not_starts_of_front (h : p.front x = .nothing) : ¬ p.Starts pre (x :: post) := by
  rintro ⟨w, rest, gs, hw, hacc⟩
  have hallows := allows_of_accepts (x := x) hacc (by rw [← hw]; rfl)
  rw [h] at hallows
  exact hallows

/-- Neither does a search for it succeed there, whatever comes after. -/
theorem run_eq_none_of_front (h : p.front x = .nothing) (k : Continuation) :
    p.run (.at pre (x :: post) gs) k = none := by
  cases hrun : p.run (.at pre (x :: post) gs) k with
  | none => rfl
  | some r =>
      obtain ⟨w, rest, g, hw, hacc, -⟩ := exists_accepts_of_run p _ _ _ _ _ hrun
      exact absurd ⟨w, rest, g, hw, hacc⟩ (not_starts_of_front h)

/-! ## Places that are passed over -/

variable {a : List Char} {items : List ClassItem} {k : Continuation}

/-- A search passes over places where the pattern does not start. -/
theorem findFrom?_skip (pre post : List Char)
    (h : ∀ u v, a = u ++ v → v ≠ [] → ¬ p.Starts (pre ++ u) (v ++ post)) :
    p.findFrom? pre.getLast? (width pre) (a ++ post) =
      p.findFrom? (pre ++ a).getLast? (width (pre ++ a)) post := by
  induction a generalizing pre with
  | nil => rw [List.append_nil, List.nil_append]
  | cons x a ih =>
      have hhere : p.matchAt? (.between pre (x :: (a ++ post))) = none := by
        rw [matchAt?_eq_none_iff]
        simpa using h [] (x :: a) rfl (List.cons_ne_nil x a)
      have hlater := ih (pre ++ [x]) fun u v huv hv => by
        simpa using h (x :: u) v (by rw [huv]; rfl) hv
      rw [List.cons_append, findFrom?_cons, hhere, Option.none_or, hlater, List.append_assoc]
      rfl

/-- A search starts behind characters before which the pattern accepts nothing. -/
theorem findFrom?_append_of_front (pre post : List Char) (h : ∀ x ∈ a, p.front x = .nothing) :
    p.findFrom? pre.getLast? (width pre) (a ++ post) =
      p.findFrom? (pre ++ a).getLast? (width (pre ++ a)) post := by
  refine findFrom?_skip pre post fun u v huv hv => ?_
  obtain ⟨x, v, rfl⟩ := List.exists_cons_of_ne_nil hv
  exact not_starts_of_front (h x (by simp [huv]))

/-- A pattern that is anchored is looked for at the start. -/
theorem find?_of_isAnchored (h : p.isAnchored = true) (s : List Char) :
    p.find? s = p.matchAt? (.between [] s) := by
  cases hm : p.matchAt? (.between [] s) with
  | some m =>
      rw [find?_eq_some_iff]
      refine ⟨⟨[], s, rfl, hm⟩, fun n _ => ?_⟩
      obtain ⟨w, rest, gs, -, -, rfl⟩ := exists_accepts_of_matchAt? hm
      exact Nat.zero_le _
  | none =>
      rw [find?_eq_none_iff]
      rintro m ⟨pre, post, rfl, hpost⟩
      obtain ⟨w, rest, gs, rfl, hacc, rfl⟩ := exists_accepts_of_matchAt? hpost
      obtain rfl := eq_nil_of_isAnchored h _ _ _ _ hacc
      rw [List.nil_append, hpost] at hm
      cases hm

/-- A repetition runs through characters of its class before which it cannot stop. -/
theorem run_star_skip (pre : List Char) (hitems : ∀ x ∈ a, items.any (·.holds x) = true)
    (hk : ∀ u v, a = u ++ v → v ≠ [] → k (.at (pre ++ u) (v ++ post) gs) = none) :
    (star (oneOf items)).run (.at pre (a ++ post) gs) k =
      (star (oneOf items)).run (.at (pre ++ a) post gs) k := by
  induction a generalizing pre with
  | nil => rw [List.append_nil, List.nil_append]
  | cons x a ih =>
      have hstop : k (.at pre (x :: (a ++ post)) gs) = none := by
        simpa using hk [] (x :: a) rfl (List.cons_ne_nil x a)
      have hlater := ih (pre ++ [x]) (fun y hy => hitems y (List.mem_cons_of_mem x hy))
        fun u v huv hv => by simpa using hk (x :: u) v (by rw [huv]; rfl) hv
      rw [List.cons_append, run_star_oneOf, hstop, Option.or_none]
      change consume _ _ _ = _
      rw [consume_at_cons, if_pos (hitems x List.mem_cons_self), hlater, List.append_assoc]
      rfl

end GodotLint.Pattern
