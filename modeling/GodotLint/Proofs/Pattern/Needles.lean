import GodotLint.Proofs.Pattern.Occurrences
import GodotLint.Proofs.Text.Lines

/-!
# Words that stand in every match

There may be words such that a pattern has no match without one of them, also where no part of the pattern
spells such a word alone. This is told by following the end of the accepted text through the parts
(`endings`): as long as no word has been met, the text ends in one of a few ways that are known, and behind
a part that may match anything nothing of its end is known. If no ending is left, a word has been met on
every way (`containsAny_of_accepts`), and so there is no match in a text without the words
(`findAll_eq_nil_of_asksFor`).
-/

namespace GodotLint

/-! ## Texts with one of several words -/

namespace Text

variable {words : List String} {s t : List Char}

/-- A word of one character. -/
theorem contains_singleton (c : Char) (s : List Char) : contains [c] s = s.contains c := by
  rw [Bool.eq_iff_iff, contains_iff, List.singleton_infix_iff, List.contains_iff_mem]

/-- Whether one of the words occurs somewhere in a text. -/
def containsAny (words : List String) (s : List Char) : Bool := words.any (contains ·.toList s)

theorem containsAny_iff : containsAny words s = true ↔ ∃ word ∈ words, word.toList <:+: s := by
  simp only [containsAny, List.any_eq_true, contains_iff]

theorem containsAny_singleton (word : String) (s : List Char) :
    containsAny [word] s = contains word.toList s := by
  rw [containsAny, List.any_cons, List.any_nil, Bool.or_false]

theorem containsAny_mono (h : containsAny words s = true) (hst : s <:+: t) :
    containsAny words t = true := by
  obtain ⟨word, hword, hs⟩ := containsAny_iff.mp h
  exact containsAny_iff.mpr ⟨word, hword, hs.trans hst⟩

end Text

namespace Pattern

open Text

variable {words : List String} {ends ends' : List (List Char)} {s pre w post : List Char}
  {gs : List (Nat × Span)} {p q : Pattern}

/-! ## Endings -/

/-- A text has one of the words, or it ends in one of the given ways. -/
def EndsAmong (words : List String) (ends : List (List Char)) (s : List Char) : Prop :=
  containsAny words s = true ∨ ∃ e ∈ ends, e <:+ s

/-- The endings after one more character, less those in which a word has been met. -/
def endingsAfter (words : List String) (c : Char) (ends : List (List Char)) : List (List Char) :=
  (ends.map (· ++ [c])).filter (!containsAny words ·)

/-- The endings after a text of which nothing is known: every text ends in the empty one. -/
def endingsForgotten (ends : List (List Char)) : List (List Char) := if ends.isEmpty then [] else [[]]

theorem EndsAmong.mono (h : EndsAmong words ends s) (hends : ∀ e ∈ ends, e ∈ ends') :
    EndsAmong words ends' s :=
  h.imp_right fun ⟨e, he, hs⟩ => ⟨e, hends e he, hs⟩

theorem EndsAmong.after (h : EndsAmong words ends s) (c : Char) :
    EndsAmong words (endingsAfter words c ends) (s ++ [c]) := by
  rcases h with hword | ⟨e, he, u, rfl⟩
  · exact .inl (containsAny_mono hword (List.prefix_append s [c]).isInfix)
  · have hsuffix : e ++ [c] <:+ u ++ e ++ [c] := ⟨u, by simp⟩
    -- the character completes a word, or the ending with it is one of the endings after it
    cases hmet : containsAny words (e ++ [c]) with
    | true => exact .inl (containsAny_mono hmet hsuffix.isInfix)
    | false =>
        refine .inr ⟨e ++ [c], List.mem_filter.mpr ⟨List.mem_map_of_mem he, ?_⟩, hsuffix⟩
        rw [hmet, Bool.not_false]

theorem EndsAmong.forgotten (h : EndsAmong words ends s) (w : List Char) :
    EndsAmong words (endingsForgotten ends) (s ++ w) := by
  rcases h with hword | ⟨e, he, -⟩
  · exact .inl (containsAny_mono hword (List.prefix_append s w).isInfix)
  · have hends : ends.isEmpty = false := List.isEmpty_eq_false_iff.mpr (List.ne_nil_of_mem he)
    exact .inr ⟨[], by simp [endingsForgotten, hends], List.nil_suffix⟩

/-! ## Endings behind a pattern -/

/-- The endings behind what the pattern accepts, given those in front of it, as long as none of the words
has been met. -/
def endings (words : List String) : Pattern → List (List Char) → List (List Char)
  | .empty, ends => ends
  | .char c, ends => endingsAfter words c ends
  | .any, ends => endingsForgotten ends
  | .oneOf _, ends => endingsForgotten ends
  | .noneOf _, ends => endingsForgotten ends
  | .atStart, ends => ends
  | .atEnd, ends => ends
  | .wordEdge, ends => ends
  | .seq p q, ends => q.endings words (p.endings words ends)
  | .alt p q, ends => p.endings words ends ++ q.endings words ends
  | .opt p, ends => p.endings words ends ++ ends
  | .star _, ends => endingsForgotten ends
  | .plus p, ends => endingsForgotten (p.endings words ends)
  | .lazyPlus p, ends => endingsForgotten (p.endings words ends)
  | .group _ p, ends => p.endings words ends

/-- **What is accepted goes on from one ending to another**, by induction over the parts of the pattern. -/
theorem EndsAmong.accepts (h : EndsAmong words ends s) (hacc : p.Accepts pre w post gs) :
    EndsAmong words (p.endings words ends) (s ++ w) := by
  induction p generalizing pre w post gs s ends with
  | empty | atStart | atEnd | wordEdge =>
      obtain ⟨rfl, -, -⟩ := hacc
      rwa [List.append_nil]
  | char c =>
      obtain ⟨x, rfl, hx, -⟩ := hacc
      obtain rfl : x = c := beq_iff_eq.mp hx
      exact h.after x
  | any | oneOf | noneOf | star => exact h.forgotten w
  | seq p q ihp ihq =>
      obtain ⟨u, v, gu, gv, rfl, -, hu, hv⟩ := hacc
      rw [← List.append_assoc]
      exact ihq (ihp h hu) hv
  | alt p q ihp ihq =>
      rcases hacc with hacc | hacc
      · exact (ihp h hacc).mono fun e => List.mem_append_left _
      · exact (ihq h hacc).mono fun e => List.mem_append_right _
  | opt p ihp =>
      rcases hacc with hacc | ⟨rfl, -⟩
      · exact (ihp h hacc).mono fun e => List.mem_append_left _
      · rw [List.append_nil]
        exact h.mono fun e => List.mem_append_right _
  | plus p ihp | lazyPlus p ihp =>
      -- the pattern once, and then again without regard to what it is
      obtain ⟨u, v, gu, gv, rfl, -, hu, -⟩ := hacc
      rw [← List.append_assoc]
      exact (ihp h hu).forgotten v
  | group index p ihp =>
      obtain ⟨g, hacc, -⟩ := hacc
      exact ihp h hacc

/-- Where a word has been met, it stays so. -/
theorem endings_nil (words : List String) (p : Pattern) : p.endings words [] = [] := by
  induction p with
  | seq p q ihp ihq => rw [endings, ihp, ihq]
  | alt p q ihp ihq => rw [endings, ihp, ihq, List.append_nil]
  | opt p ihp => rw [endings, ihp, List.append_nil]
  | plus p ihp | lazyPlus p ihp =>
      rw [endings, ihp]
      rfl
  | group index p ihp => exact ihp
  | _ => rfl

/-! ## Patterns that ask for a word -/

/-- On every way through the pattern one of the words is met. -/
def asksFor (words : List String) (p : Pattern) : Bool := (p.endings words [[]]).isEmpty

/-- What comes after does not matter where a word has been met. -/
theorem asksFor_append (h : p.asksFor words = true) (q : Pattern) : (p ++ q).asksFor words = true := by
  rw [asksFor, List.isEmpty_iff] at h ⊢
  change q.endings words (p.endings words [[]]) = []
  rw [h, endings_nil]

/-- A pattern that asks for one of the words accepts no text without them. -/
theorem containsAny_of_accepts (h : p.asksFor words = true) (hacc : p.Accepts pre w post gs) :
    containsAny words w = true := by
  have hempty : EndsAmong words [[]] [] := .inr ⟨[], List.mem_singleton_self [], List.suffix_rfl⟩
  have hends := hempty.accepts hacc
  rw [List.isEmpty_iff.mp h, List.nil_append] at hends
  rcases hends with hword | ⟨e, he, -⟩
  · exact hword
  · cases he

/-- A text with a match has one of the words. -/
theorem containsAny_of_mem_findAll {m : Match} (h : p.asksFor words = true) (hm : m ∈ p.findAll s) :
    containsAny words s = true := by
  obtain ⟨a, w, b, gs, rfl, hacc, -⟩ := occurs_of_mem_findAll hm
  exact containsAny_mono (containsAny_of_accepts h hacc) ⟨a, b, rfl⟩

/-- There is no match in a text without the words. -/
theorem findAll_eq_nil_of_asksFor (h : p.asksFor words = true) (hs : containsAny words s = false) :
    p.findAll s = [] := by
  refine List.eq_nil_iff_forall_not_mem.mpr fun m hm => ?_
  rw [containsAny_of_mem_findAll h hm] at hs
  cases hs

end Pattern

end GodotLint
