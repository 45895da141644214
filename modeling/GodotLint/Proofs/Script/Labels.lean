import GodotLint.Proofs.Line.Words
import GodotLint.Proofs.Script.Strings
import GodotLint.Proofs.Text.Bytes
import GodotLint.Script.Branch

/-!
# Labels of branches

A label is cut at colons and commas by a reader of its own, which counts brackets and keeps the mark of the
literal that it is in, but knows no backslashes. It stands where the reader of the line stands as long as no
literal has its own mark in it (`LabelState.read_eq`), and at the first one that has, the two part
(`HasEscapedMark`). So a line without such a literal is cut at the colon and at the commas that are at top
level (`readsBranch`). The guard is cut off without any reader, at the first ` when ` wherever it stands.
-/

namespace GodotLint

open Text

namespace Quoting

/-- The mark of the literal that a reader is in. -/
def mark? : Quoting → Option Char
  | .outside => none
  | .inside mark => some mark
  | .escaped mark => some mark

theorem isMark_of_mark?_eq_some {s : List Char} {mark : Char}
    (h : (read .outside s).mark? = some mark) : IsMark mark := by
  apply isMark_of_read (s := s)
  cases hq : read .outside s with
  | outside =>
      rw [hq] at h
      cases h
  | inside m =>
      rw [hq] at h
      exact .inl (congrArg _ (Option.some.inj h))
  | escaped m =>
      rw [hq] at h
      exact .inr (congrArg _ (Option.some.inj h))

theorem isSome_mark? (q : Quoting) : q.mark?.isSome = q.isInside := by
  cases q <;> rfl

/-- A literal of a text has its own mark in it, behind a backslash. -/
def HasEscapedMark (s : List Char) : Prop :=
  ∃ a mark b, s = a ++ mark :: b ∧ read .outside a = .escaped mark

theorem HasEscapedMark.append {a : List Char} (h : HasEscapedMark a) (b : List Char) :
    HasEscapedMark (a ++ b) := by
  obtain ⟨u, mark, v, rfl, hread⟩ := h
  exact ⟨u, mark, v ++ b, by simp, hread⟩

/-- There is a first place at which a literal has its own mark in it. -/
theorem HasEscapedMark.exists_first {s : List Char} (h : HasEscapedMark s) :
    ∃ a mark b, s = a ++ mark :: b ∧ read .outside a = .escaped mark ∧ ¬ HasEscapedMark a := by
  induction s using List.reverseRecOn with
  | nil =>
      obtain ⟨a, mark, b, hs, -⟩ := h
      simp at hs
  | append_singleton s c ih =>
      by_cases hs : HasEscapedMark s
      · obtain ⟨a, mark, b, rfl, hread, hfirst⟩ := ih hs
        exact ⟨a, mark, b ++ [c], by simp, hread, hfirst⟩
      · obtain ⟨a, mark, b, heq, hread⟩ := h
        cases b using List.reverseRecOn with
        | nil =>
            obtain ⟨rfl, hc⟩ := List.append_inj' heq rfl
            exact ⟨s, mark, [], heq, hread, hs⟩
        | append_singleton b d =>
            rw [← List.cons_append, ← List.append_assoc] at heq
            obtain ⟨rfl, -⟩ := List.append_inj' heq rfl
            exact absurd ⟨a, mark, b, rfl, hread⟩ hs

/-- What a character adds to the number of open brackets. -/
def bracketWeight (c : Char) : Int :=
  if c = '[' ∨ c = '\x7b' ∨ c = '(' then 1
  else if c = ']' ∨ c = '\x7d' ∨ c = ')' then -1
  else 0

/-- The number of brackets that a text opens and does not close, without those in literals. -/
def bracketDepth : Quoting → List Char → Int
  | _, [] => 0
  | q, c :: rest => (if q.isInside then 0 else bracketWeight c) + bracketDepth (q.next c) rest

theorem bracketDepth_append (q : Quoting) (a b : List Char) :
    bracketDepth q (a ++ b) = bracketDepth q a + bracketDepth (q.read a) b := by
  induction a generalizing q with
  | nil => simp [bracketDepth]
  | cons c a ih => rw [List.cons_append, bracketDepth, bracketDepth, ih, read_cons, Int.add_assoc]

end Quoting

namespace Script

open Quoting (HasEscapedMark IsMark LiteralBody bracketDepth bracketWeight)

namespace LabelState

/-- The state after reading a text. -/
def read (s : LabelState) (t : List Char) : LabelState := t.foldl next s

@[simp] theorem read_nil (s : LabelState) : s.read [] = s := rfl

@[simp] theorem read_cons (s : LabelState) (c : Char) (t : List Char) :
    s.read (c :: t) = (s.next c).read t := rfl

@[simp] theorem read_append (s : LabelState) (a b : List Char) :
    s.read (a ++ b) = (s.read a).read b := List.foldl_append

/-- The state that goes with a reader of the line behind brackets of a given depth. -/
def follow (depth : Int) (q : Quoting) : LabelState := ⟨depth, q.mark?⟩

/-- Both readers go on in the same way, unless the mark of a literal stands in it. -/
theorem next_follow {depth : Int} {q : Quoting} {c : Char}
    (hmark : ∀ mark, q.mark? = some mark → IsMark mark) (hescaped : q ≠ .escaped c) :
    (follow depth q).next c =
      follow (depth + if q.isInside then 0 else bracketWeight c) (q.next c) := by
  cases q with
  | outside =>
      by_cases hc : IsMark c
      · rw [Quoting.next_outside_of_mark hc]
        rcases hc with rfl | rfl <;> simp [follow, next, Quoting.mark?, bracketWeight, Quoting.isInside]
      · rw [Quoting.next_outside_of_not_mark hc]
        simp only [IsMark, not_or] at hc
        simp only [follow, next, Quoting.mark?, bracketWeight, Quoting.isInside, hc, beq_iff_eq,
          Bool.or_eq_true, or_false, or_assoc, Bool.false_eq_true, if_false]
        split_ifs <;> simp [Int.sub_eq_add_neg]
  | inside mark =>
      have hslash : mark ≠ '\\' := (hmark mark rfl).ne_backslash
      by_cases hc : c = mark
      · subst hc
        simp [follow, next, Quoting.next, Quoting.mark?, Quoting.isInside, hslash]
      · have hnext : ∀ d, follow d (Quoting.next (.inside mark) c) = ⟨d, some mark⟩ := by
          intro d
          simp only [Quoting.next, beq_iff_eq, hc, if_false]
          split_ifs <;> rfl
        rw [hnext]
        simp [follow, next, Quoting.mark?, Quoting.isInside, hc]
  | escaped mark =>
      have hc : c ≠ mark := by
        rintro rfl
        exact hescaped rfl
      simp [follow, next, Quoting.next, Quoting.mark?, Quoting.isInside, hc]

/-- **The reader of labels stands where the reader of the line stands**, if no literal has its own mark in
it. -/
theorem read_eq {a : List Char} (h : ¬ HasEscapedMark a) :
    read {} a = follow (bracketDepth .outside a) (Quoting.read .outside a) := by
  induction a using List.reverseRecOn with
  | nil => rfl
  | append_singleton a c ih =>
      have hread := ih fun ha => h (ha.append [c])
      have hescaped : Quoting.read .outside a ≠ .escaped c := fun hq => h ⟨a, c, [], rfl, hq⟩
      rw [read_append, hread, read_cons, read_nil,
        next_follow (fun _ => Quoting.isMark_of_mark?_eq_some) hescaped, Quoting.bracketDepth_append,
        Quoting.read_append]
      simp [bracketDepth]

/-- Where a literal has its own mark in it, the two readers part. -/
theorem next_of_escaped {depth : Int} (mark : Char) :
    ((follow depth (.escaped mark)).next mark).mark = none := by
  simp [follow, next, Quoting.mark?]

end LabelState

/-! ## Places at top level -/

/-- The place behind `a` in a line that begins with it is at top level: outside of literals, as the line is
read, and behind as many closing as opening brackets. -/
structure IsTop (line a : List Char) : Prop where
  outside : Line.isInsideLiteral line (width a) = false
  closed : bracketDepth .outside a = 0

theorem isTop_append_iff {a b : List Char} :
    IsTop (a ++ b) a ↔ Quoting.read .outside a = .outside ∧ bracketDepth .outside a = 0 := by
  rw [← Quoting.isInside_eq_false_iff, ← Line.isInsideLiteral_append a b]
  exact ⟨fun h => ⟨h.outside, h.closed⟩, fun h => ⟨h.1, h.2⟩⟩

/-- The reader of labels tells which places are at top level, if no literal before them has its own mark in
it. -/
theorem atTop_read_iff {a b : List Char} (h : ¬ HasEscapedMark a) :
    (LabelState.read {} a).atTop = true ↔ IsTop (a ++ b) a := by
  have hnone : ∀ q : Quoting, q.mark? = none ↔ q = .outside := by
    intro q
    cases q <;> simp [Quoting.mark?]
  rw [LabelState.read_eq h, isTop_append_iff, ← hnone]
  simp [LabelState.follow, LabelState.atTop]

/-! ## Cutting at a character -/

/-- A text before a character: the first one at a place that is at top level. -/
structure IsBefore (top : List Char → Prop) (c : Char) (line a : List Char) : Prop where
  splits : ∃ b, line = a ++ c :: b
  here : top a
  first : ∀ u v, a = u ++ c :: v → ¬ top u

/-- The pieces of a text between the characters at places that are at top level, the text being read behind
`before`. -/
inductive Pieces (top : List Char → Prop) (c : Char) :
    (before text : List Char) → List (List Char) → Prop
  | last {before text : List Char} (uncut : ∀ u v, text = u ++ c :: v → ¬ top (before ++ u)) :
      Pieces top c before text [text]
  | cut {before u v : List Char} {pieces : List (List Char)} (here : top (before ++ u))
      (first : ∀ a b, u = a ++ c :: b → ¬ top (before ++ a))
      (rest : Pieces top c (before ++ u ++ [c]) v pieces) :
      Pieces top c before (u ++ c :: v) (u :: pieces)

section pieces

variable {top top' : List Char → Prop} {c : Char} {line a before text : List Char}
  {pieces : List (List Char)}

/-- It is enough to know which places of the text are at top level. -/
theorem IsBefore.congr (h : IsBefore top c line a) (htop : ∀ u v, a = u ++ v → (top u ↔ top' u)) :
    IsBefore top' c line a where
  splits := h.splits
  here := (htop a [] (by simp)).mp h.here
  first := fun u v hu hu' => h.first u v hu ((htop u _ hu).mpr hu')

/-- It is enough to know which places of the text are at top level. -/
theorem Pieces.congr (h : Pieces top c before text pieces)
    (htop : ∀ u v, text = u ++ v → (top (before ++ u) ↔ top' (before ++ u))) :
    Pieces top' c before text pieces := by
  induction h with
  | last uncut => exact .last fun u v hu hu' => uncut u v hu ((htop u _ hu).mpr hu')
  | @cut before u v pieces hhere hfirst _ ih =>
      refine .cut ((htop u _ rfl).mp hhere) (fun a b ha ha' => ?_) (ih fun a b ha => ?_)
      · exact hfirst a b ha ((htop a (b.cons c ++ c :: v) (by simp [ha])).mpr ha')
      · simpa using htop (u ++ c :: a) b (by simp [ha])

theorem Pieces.ne_nil (h : Pieces top c before text pieces) : pieces ≠ [] := by
  cases h <;> exact List.cons_ne_nil _ _

theorem Pieces.length_le (h : Pieces top c before text pieces) :
    ∀ piece ∈ pieces, piece.length ≤ text.length := by
  induction h with
  | last => simp
  | cut _ _ _ ih =>
      intro piece hpiece
      rw [List.length_append, List.length_cons]
      rcases List.mem_cons.mp hpiece with rfl | hpiece
      · omega
      · have := ih piece hpiece
        omega

/-- A text without places to cut at is one piece. -/
theorem Pieces.eq_singleton (h : Pieces top c before text pieces)
    (hnone : ∀ u v, text = u ++ c :: v → ¬ top (before ++ u)) : pieces = [text] := by
  cases h with
  | last => rfl
  | cut hhere => exact absurd hhere (hnone _ _ rfl)

/-- A character in front of a text belongs to the first piece, if it is not cut there. -/
theorem Pieces.cons {d : Char} {piece : List Char} (h : Pieces top c (before ++ [d]) text (piece :: pieces))
    (hd : d = c → ¬ top before) : Pieces top c before (d :: text) ((d :: piece) :: pieces) := by
  cases h with
  | last uncut =>
      refine .last ?_
      intro u v hu
      rcases List.cons_eq_append_iff.mp hu with ⟨rfl, hrest⟩ | ⟨u, rfl, rfl⟩
      · simpa using hd (List.cons.inj hrest).1.symm
      · simpa using uncut u v rfl
  | @cut _ u v _ hhere hfirst hrest =>
      refine .cut (u := d :: piece) (by simpa using hhere) (fun a b ha => ?_) (by simpa using hrest)
      rcases List.cons_eq_append_iff.mp ha with ⟨rfl, hrest⟩ | ⟨a, rfl, rfl⟩
      · simpa using hd (List.cons.inj hrest).1.symm
      · simpa using hfirst a b rfl

/-- What stands before the first character, if this one is the first. -/
theorem isBefore_cons_self_iff (h : top []) : IsBefore top c (c :: line) a ↔ a = [] := by
  constructor
  · rintro ⟨⟨b, hb⟩, -, hfirst⟩
    cases a with
    | nil => rfl
    | cons d a =>
        obtain ⟨rfl, -⟩ := List.cons.inj hb
        exact absurd h (hfirst [] a rfl)
  · rintro rfl
    exact ⟨⟨line, rfl⟩, h, by simp⟩

/-- Another first character stands before it, too. -/
theorem isBefore_cons_iff {d : Char} (hd : d = c → ¬ top []) : IsBefore top c (d :: line) a ↔
    ∃ a', IsBefore (fun u => top (d :: u)) c line a' ∧ d :: a' = a := by
  constructor
  · rintro ⟨⟨b, hb⟩, htop, hfirst⟩
    rcases List.cons_eq_append_iff.mp hb with ⟨rfl, hrest⟩ | ⟨a, rfl, rfl⟩
    · exact absurd htop (hd (List.cons.inj hrest).1.symm)
    · exact ⟨a, ⟨⟨b, rfl⟩, htop, fun u v hu => hfirst (d :: u) v (by rw [hu]; rfl)⟩, rfl⟩
  · rintro ⟨a, ⟨⟨b, rfl⟩, htop, hfirst⟩, rfl⟩
    refine ⟨⟨b, rfl⟩, htop, fun u v hu => ?_⟩
    rcases List.cons_eq_append_iff.mp hu with ⟨rfl, hrest⟩ | ⟨u, rfl, rfl⟩
    · exact hd (List.cons.inj hrest).1.symm
    · exact hfirst u v rfl

end pieces

/-- A label ends at the first colon at which its reader is at top level. -/
theorem beforeColon?_eq_some_iff {s : LabelState} {line a : List Char} :
    beforeColon? s line = some a ↔ IsBefore (fun u => (s.read u).atTop = true) ':' line a := by
  induction line generalizing s a with
  | nil =>
      constructor
      · rintro ⟨⟩
      · rintro ⟨⟨b, h⟩, -, -⟩
        simp at h
  | cons c line ih =>
      rw [beforeColon?]
      split_ifs with hc
      · rw [Bool.and_eq_true, beq_iff_eq] at hc
        obtain ⟨rfl, htop⟩ := hc
        rw [Option.some.injEq, isBefore_cons_self_iff htop, eq_comm]
      · rw [Bool.and_eq_true, beq_iff_eq, not_and] at hc
        rw [Option.map_eq_some_iff, isBefore_cons_iff hc]
        simp only [ih]
        rfl

/-- There is no label if its reader is at top level at no colon. -/
theorem beforeColon?_eq_none_iff {s : LabelState} {line : List Char} :
    beforeColon? s line = none ↔ ∀ a b, line = a ++ ':' :: b → ¬ (s.read a).atTop = true := by
  induction line generalizing s with
  | nil => simp [beforeColon?]
  | cons c line ih =>
      rw [beforeColon?]
      split_ifs with hc
      · rw [Bool.and_eq_true, beq_iff_eq] at hc
        obtain ⟨rfl, htop⟩ := hc
        exact iff_of_false not_false fun h => h [] line rfl htop
      · rw [Bool.and_eq_true, beq_iff_eq, not_and] at hc
        rw [Option.map_eq_none_iff, ih]
        constructor
        · intro h a b hline
          rcases List.cons_eq_append_iff.mp hline with ⟨rfl, hrest⟩ | ⟨a, rfl, rfl⟩
          · exact hc (List.cons.inj hrest).1.symm
          · exact h a b rfl
        · intro h a b hline
          exact h (c :: a) b (by rw [hline]; rfl)

/-- The pieces of a label are those between the commas at which its reader is at top level. -/
theorem pieces_splitTopCommas (before text : List Char) :
    Pieces (fun u => (LabelState.read {} u).atTop = true) ',' before text
      (splitTopCommas (LabelState.read {} before) text) := by
  induction text generalizing before with
  | nil => exact .last (by simp)
  | cons c text ih =>
      rw [splitTopCommas]
      split_ifs with hc
      · rw [Bool.and_eq_true, beq_iff_eq] at hc
        obtain ⟨rfl, htop⟩ := hc
        have hstay : (LabelState.read {} before).next ',' = LabelState.read {} before := by
          rw [LabelState.atTop, Bool.and_eq_true, Option.isNone_iff_eq_none] at htop
          rw [LabelState.next, htop.1]
          rfl
        have hrest := ih (before ++ [','])
        rw [LabelState.read_append, LabelState.read_cons, LabelState.read_nil, hstay] at hrest
        exact .cut (u := []) (by simpa using htop) (by simp) (by simpa using hrest)
      · rw [Bool.and_eq_true, beq_iff_eq, not_and] at hc
        have hrest := ih (before ++ [c])
        rw [LabelState.read_append, LabelState.read_cons, LabelState.read_nil] at hrest
        cases hpieces : splitTopCommas ((LabelState.read {} before).next c) text with
        | nil => exact absurd hpieces hrest.ne_nil
        | cons piece pieces =>
            rw [hpieces] at hrest
            exact hrest.cons hc

/-! ## Alternatives -/

/-- The part of a label without its guard: what stands before the first ` when `. -/
def unguarded (label : List Char) : List Char :=
  match cutAt? " when ".toList label with
  | some (pattern, _) => pattern
  | none => label

/-- The alternatives that some pieces of a label are. An empty last one does not count. -/
def alternatives (pieces : List (List Char)) : List String :=
  let pieces := pieces.map trim
  (if pieces.getLast? == some [] then pieces.dropLast else pieces).map str

theorem labelPatterns_eq (label : List Char) :
    labelPatterns label = alternatives (splitTopCommas {} (unguarded label)) := rfl

/-- Each alternative is one of the pieces. -/
theorem exists_mem_of_mem_alternatives {pieces : List (List Char)} {pattern : String}
    (h : pattern ∈ alternatives pieces) : ∃ piece ∈ pieces, str (trim piece) = pattern := by
  obtain ⟨trimmed, htrimmed, rfl⟩ := List.mem_map.mp h
  have hmem : trimmed ∈ pieces.map trim := by
    split_ifs at htrimmed
    · exact List.mem_of_mem_dropLast htrimmed
    · exact htrimmed
  obtain ⟨piece, hpiece, rfl⟩ := List.mem_map.mp hmem
  exact ⟨piece, hpiece, rfl⟩

/-- A label is cut at its first ` when `, if it has one. -/
theorem unguarded_spec (label : List Char) :
    (¬ " when ".toList <:+: label ∧ unguarded label = label) ∨
      ∃ guard, label = unguarded label ++ " when ".toList ++ guard ∧
        ∀ a b, label = a ++ " when ".toList ++ b → (unguarded label).length ≤ a.length := by
  have hne : " when ".toList ≠ [] := by decide
  cases hcut : cutAt? " when ".toList label with
  | none =>
      refine .inl ⟨(cutAt?_eq_none_iff hne).mp hcut, ?_⟩
      rw [unguarded, hcut]
  | some cut =>
      obtain ⟨u, guard⟩ := cut
      have hunguarded : unguarded label = u := by rw [unguarded, hcut]
      rw [hunguarded]
      exact .inr ⟨guard, (cutAt?_eq_some_iff hne).mp hcut⟩

/-- A label counts as a whole exactly if it has no ` when `. -/
theorem unguarded_eq_self_iff {label : List Char} :
    unguarded label = label ↔ ¬ " when ".toList <:+: label := by
  rcases unguarded_spec label with ⟨hnone, hwhole⟩ | ⟨guard, hguard, -⟩
  · exact iff_of_true hwhole hnone
  · refine iff_of_false (fun hwhole => ?_) (not_not.mpr ⟨_, guard, hguard.symm⟩)
    have hlength := congrArg List.length hguard
    simp [hwhole] at hlength

theorem exists_unguarded_append (label : List Char) : ∃ rest, label = unguarded label ++ rest := by
  rcases unguarded_spec label with ⟨-, h⟩ | ⟨guard, h, -⟩
  · exact ⟨[], by rw [h, List.append_nil]⟩
  · exact ⟨" when ".toList ++ guard, by rw [← List.append_assoc, ← h]⟩

/-- A text is cut at commas at top level, as the label that it begins is read. -/
theorem pieces_of_not_hasEscapedMark {u : List Char} (h : ¬ HasEscapedMark u) (rest : List Char) :
    Pieces (IsTop (u ++ rest)) ',' [] u (splitTopCommas {} u) := by
  refine (pieces_splitTopCommas [] u).congr ?_
  rintro a b rfl
  rw [List.nil_append, List.append_assoc]
  exact atTop_read_iff fun ha => h (ha.append b)

/-- Within a literal nothing is at top level. -/
theorem not_isTop_of_literal {mark : Char} {body u v : List Char} (hmark : IsMark mark)
    (hbody : LiteralBody mark body) (hu : mark :: (body ++ [mark]) = u ++ ',' :: v) :
    ¬ IsTop (mark :: (body ++ [mark])) u := by
  have hcomma : mark ≠ ',' := by
    rintro rfl
    rcases hmark with h | h <;> cases h
  rw [hu, isTop_append_iff]
  rintro ⟨houtside, -⟩
  rcases List.cons_eq_append_iff.mp hu with ⟨rfl, h⟩ | ⟨u, rfl, h⟩
  · exact hcomma (List.cons.inj h).1.symm
  rcases List.append_eq_append_iff.mp h with ⟨s, rfl, hs⟩ | ⟨s, rfl, -⟩
  · cases s with
    | nil => exact hcomma (List.cons.inj hs).1
    | cons c s => simp at hs
  · rw [Quoting.read_cons, Quoting.next_outside_of_mark hmark] at houtside
    have hinside := hbody.isInside
    rw [houtside] at hinside
    cases hinside

/-- A label that is one literal is its only alternative, exactly if it has no ` when ` in it. -/
theorem labelPatterns_literal_iff {mark : Char} {body : List Char} (hmark : IsMark mark)
    (hbody : LiteralBody mark body) (hescaped : ¬ HasEscapedMark (mark :: (body ++ [mark]))) :
    labelPatterns (mark :: (body ++ [mark])) = [str (mark :: (body ++ [mark]))] ↔
      ¬ " when ".toList <:+: mark :: (body ++ [mark]) := by
  rcases unguarded_spec (mark :: (body ++ [mark])) with ⟨hnone, hwhole⟩ | ⟨guard, hguard, -⟩
  · refine iff_of_true ?_ hnone
    have hpieces := pieces_of_not_hasEscapedMark hescaped []
    rw [List.append_nil] at hpieces
    have hsingle := hpieces.eq_singleton fun u v hu => not_isTop_of_literal hmark hbody hu
    have htrim := trim_eq_self hmark.not_blank hmark.not_blank body
    rw [labelPatterns_eq, hwhole, hsingle, alternatives, List.map_singleton, htrim]
    rfl
  · refine iff_of_false (fun hone => ?_) (not_not.mpr ⟨_, guard, hguard.symm⟩)
    -- an alternative is no longer than the text before the guard
    have hmem : str (mark :: (body ++ [mark])) ∈ labelPatterns (mark :: (body ++ [mark])) := by
      rw [hone]
      exact List.mem_cons_self
    rw [labelPatterns_eq] at hmem
    obtain ⟨piece, hpiece, heq⟩ := exists_mem_of_mem_alternatives hmem
    have hpieceLength := (pieces_splitTopCommas [] _).length_le piece hpiece
    have htrimLength := length_trim_le piece
    rw [String.ofList_injective heq] at htrimLength
    have hlength := congrArg List.length hguard
    rw [List.length_append, List.length_append] at hlength
    have hwhen : " when ".toList.length = 6 := rfl
    omega

/-! ## The cuts of a line -/

/-- The text before a guard at top level: a ` when ` that is the first one at top level follows it, or it is
the whole label and none is at top level. -/
def IsUnguarded (label u : List Char) : Prop :=
  ((∃ guard, label = u ++ " when ".toList ++ guard) ∧ IsTop label u ∧
    ∀ a b, label = a ++ " when ".toList ++ b → IsTop label a → u.length ≤ a.length) ∨
  (u = label ∧ ∀ a b, label = a ++ " when ".toList ++ b → ¬ IsTop label a)

/-- How a label is cut into alternatives. -/
structure ReadsLabel (label : List Char) : Prop where
  /-- The part before the first ` when ` is cut at the commas at top level, if no literal in it has its own
  mark in it. -/
  pieces : ¬ HasEscapedMark (unguarded label) → ∃ pieces,
    Pieces (IsTop label) ',' [] (unguarded label) pieces ∧ labelPatterns label = alternatives pieces
  /-- This is the part before the guard, exactly if the first ` when `, if there is one, is at top level. -/
  guard : IsUnguarded label (unguarded label) ↔ unguarded label = label ∨ IsTop label (unguarded label)
  /-- A label that is one literal, which does not have its own mark in it, is its only alternative exactly
  if there is no ` when ` in it. -/
  literal : ∀ mark body, IsMark mark → LiteralBody mark body → label = mark :: (body ++ [mark]) →
    ¬ HasEscapedMark label → (labelPatterns label = [str label] ↔ ¬ " when ".toList <:+: label)

/-- How the label of a line is cut off. -/
structure ReadsBranch (line : List Char) : Prop where
  /-- The reader of labels is in a literal wherever the line is, exactly if no literal has its own mark in
  it. -/
  reader : (∀ a b, line = a ++ b →
    (LabelState.read {} a).mark.isSome = Line.isInsideLiteral line (width a)) ↔ ¬ HasEscapedMark line
  /-- The label is the text before the first colon at top level, if no literal in it has its own mark in
  it. -/
  label : ∀ a, IsBefore (IsTop line) ':' line a → ¬ HasEscapedMark a →
    branchLabel? line = some (trim a)
  /-- There is none only if no colon is at top level, if no literal of the line has its own mark in it. -/
  no_label : ¬ HasEscapedMark line →
    (branchLabel? line = none ↔ ∀ a b, line = a ++ ':' :: b → ¬ IsTop line a)
  alternatives : ∀ label, branchLabel? line = some label → ReadsLabel label

theorem unguarded_isUnguarded_iff (label : List Char) :
    IsUnguarded label (unguarded label) ↔ unguarded label = label ∨ IsTop label (unguarded label) := by
  constructor
  · rintro (⟨-, htop, -⟩ | ⟨hwhole, -⟩)
    · exact .inr htop
    · exact .inl hwhole
  · rintro (hwhole | htop)
    · have hnone := unguarded_eq_self_iff.mp hwhole
      exact .inr ⟨hwhole, fun a b h => absurd ⟨a, b, h.symm⟩ hnone⟩
    · rcases unguarded_spec label with ⟨hnone, hwhole⟩ | ⟨guard, hguard, hfirst⟩
      · exact .inr ⟨hwhole, fun a b h => absurd ⟨a, b, h.symm⟩ hnone⟩
      · exact .inl ⟨⟨guard, hguard⟩, htop, fun a b h _ => hfirst a b h⟩

theorem readsLabel (label : List Char) : ReadsLabel label where
  pieces := by
    intro h
    obtain ⟨rest, hrest⟩ := exists_unguarded_append label
    have hpieces := pieces_of_not_hasEscapedMark h rest
    rw [← hrest] at hpieces
    exact ⟨_, hpieces, labelPatterns_eq label⟩
  guard := unguarded_isUnguarded_iff label
  literal := by
    rintro mark body hmark hbody rfl hescaped
    exact labelPatterns_literal_iff hmark hbody hescaped

/-- The reader of labels parts from the reader of the line at the first mark in its own literal. -/
theorem forall_isSome_mark_iff {line : List Char} : (∀ a b, line = a ++ b →
    (LabelState.read {} a).mark.isSome = Line.isInsideLiteral line (width a)) ↔
      ¬ HasEscapedMark line := by
  constructor
  · intro hagree hescaped
    obtain ⟨a, mark, b, rfl, hread, hfirst⟩ := hescaped.exists_first
    have hbehind := hagree (a ++ [mark]) b (by simp)
    have hline : a ++ mark :: b = (a ++ [mark]) ++ b := by simp
    rw [hline, Line.isInsideLiteral_append, LabelState.read_append, LabelState.read_eq hfirst,
      Quoting.read_append, hread, LabelState.read_cons, LabelState.read_nil,
      LabelState.next_of_escaped] at hbehind
    cases hbehind
  · rintro h a b rfl
    rw [LabelState.read_eq fun ha => h (ha.append b), Line.isInsideLiteral_append]
    exact Quoting.isSome_mark? _

/-- **A line is cut into label and alternatives as it is read**, as long as no literal has its own mark in
it. -/
theorem readsBranch (line : List Char) : ReadsBranch line where
  reader := forall_isSome_mark_iff
  label := by
    intro a ha hescaped
    obtain ⟨b, hb⟩ := ha.splits
    have hcolon : beforeColon? {} line = some a := by
      refine beforeColon?_eq_some_iff.mpr (ha.congr ?_)
      rintro u v rfl
      rw [hb, List.append_assoc]
      exact (atTop_read_iff fun hu => hescaped (hu.append v)).symm
    rw [branchLabel?, hcolon, Option.map_some]
  no_label := by
    intro hescaped
    rw [branchLabel?, Option.map_eq_none_iff, beforeColon?_eq_none_iff]
    refine forall₃_congr fun a b hline => not_congr ?_
    subst hline
    exact atTop_read_iff fun ha => hescaped (ha.append _)
  alternatives := fun label _ => readsLabel label

/-- A literal with its own mark in it hides the colon of its branch, and one with ` when ` in it is cut. -/
theorem labels_misread :
    (let line := "\"a\\\"b\":".toList
     IsBefore (IsTop line) ':' line "\"a\\\"b\"".toList ∧ branchLabel? line = none) ∧
    (let label := "\"a when b\"".toList
     LiteralBody '"' "a when b".toList ∧ label = '"' :: ("a when b".toList ++ ['"']) ∧
       branchLabel? (label ++ [':']) = some label ∧ labelPatterns label = ["\"a"]) := by
  constructor
  · refine ⟨⟨⟨[], rfl⟩, ⟨by decide +kernel, by decide +kernel⟩, ?_⟩, by decide +kernel⟩
    intro u v h
    have hcolon : ':' ∈ "\"a\\\"b\"".toList := by
      rw [h]
      simp
    exact absurd hcolon (by decide +kernel)
  · exact ⟨.of_plain (by simp), rfl, by decide +kernel, by decide +kernel⟩

end Script

end GodotLint
