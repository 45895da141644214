import GodotLint.Proofs.Offset.Slice
import GodotLint.Proofs.Pattern.Occurrences
import GodotLint.Run.Suppression
import GodotLint.Script.Preload

/-!
# The places that matches name

A match names its places by byte offsets. They lie around what was matched, and those of a group around
what it holds (`Occurs.isPlaced`). Which groups take part in every match can be told
from the pattern (`always`); the readers take no other group for granted (`givenGroups_subset_always`).
-/

namespace GodotLint.Pattern

open Text Offset

/-! ## The places of groups -/

/-- A span is a part of the text `w`, which stands behind `pre`. -/
def Within (pre w : List Char) (g : Span) : Prop :=
  ∃ u v, w = u ++ (g.chars ++ v) ∧ g.start = width (pre ++ u)

section within

variable {pre u v w post : List Char} {g : Span}

theorem Within.append_left (h : Within pre u g) : Within pre (u ++ v) g := by
  obtain ⟨a, b, rfl, hstart⟩ := h
  exact ⟨a, b ++ v, by simp, hstart⟩

theorem Within.append_right (h : Within (pre ++ u) v g) : Within pre (u ++ v) g := by
  obtain ⟨a, b, rfl, hstart⟩ := h
  exact ⟨u ++ a, b, by simp, by rw [hstart, List.append_assoc]⟩

theorem Within.slice_eq (h : Within pre w g) :
    slice (pre ++ w ++ post) g.start g.stop = .ok g.chars := by
  obtain ⟨a, b, rfl, hstart⟩ := h
  have htext : pre ++ (a ++ (g.chars ++ b)) ++ post = pre ++ a ++ g.chars ++ (b ++ post) := by simp
  have hstop : g.stop = width (pre ++ a ++ g.chars) := by rw [Span.stop, hstart, width_append _ g.chars]
  rw [htext, hstart, hstop, slice_append]

end within

/-- Every group is a part of the accepted text. -/
def GroupsWithin (R : Acceptance) : Prop :=
  ∀ pre w post gs, R pre w post gs → ∀ x ∈ gs, Within pre w x.2

theorem GroupsWithin.followed {R S : Acceptance} (hR : GroupsWithin R) (hS : GroupsWithin S) :
    GroupsWithin (Followed R S) := by
  rintro pre w post gs ⟨u, v, gu, gv, rfl, rfl, hu, hv⟩ x hx
  rcases List.mem_append.mp hx with hx | hx
  · exact (hS _ _ _ _ hv x hx).append_right
  · exact (hR _ _ _ _ hu x hx).append_left

theorem GroupsWithin.repeats {R : Acceptance} (hR : GroupsWithin R) : GroupsWithin (Repeats R) := by
  intro pre w post gs h
  induction h with
  | none => simp
  | more first _ _ ih =>
      intro x hx
      rcases List.mem_append.mp hx with hx | hx
      · exact (ih x hx).append_right
      · exact (hR _ _ _ _ first x hx).append_left

/-- What a pattern remembers is a part of what it accepts. -/
theorem groupsWithin_accepts (p : Pattern) : GroupsWithin p.Accepts := by
  induction p with
  | char | any | oneOf | noneOf =>
      rintro pre w post gs ⟨x, -, -, rfl⟩
      simp
  | empty | atStart | atEnd | wordEdge =>
      rintro pre w post gs ⟨-, rfl, -⟩
      simp
  | seq p q ihp ihq => exact ihp.followed ihq
  | alt p q ihp ihq => exact fun pre w post gs h => h.elim (ihp _ _ _ _) (ihq _ _ _ _)
  | opt p ihp =>
      rintro pre w post gs (h | ⟨-, rfl⟩)
      · exact ihp _ _ _ _ h
      · simp
  | star p ihp => exact ihp.repeats
  | plus p ihp | lazyPlus p ihp => exact ihp.followed ihp.repeats
  | group index p ihp =>
      rintro pre w post gs ⟨g, hacc, rfl⟩ x hx
      rcases List.mem_cons.mp hx with rfl | hx
      · exact ⟨[], [], by simp, by simp⟩
      · exact ihp _ _ _ _ hacc x hx

/-- The spans of all groups are parts of the text. -/
def GroupsLie (R : Acceptance) : Prop :=
  ∀ pre w post gs, R pre w post gs → ∀ x ∈ gs,
    slice (pre ++ w ++ post) x.2.start x.2.stop = .ok x.2.chars

theorem groupsLie_accepts (p : Pattern) : GroupsLie p.Accepts := fun pre w post gs h x hx =>
  (groupsWithin_accepts p pre w post gs h x hx).slice_eq

/-- Every group starts within the accepted text. -/
def StartsGroups (R : Acceptance) : Prop :=
  ∀ pre w post gs, R pre w post gs → ∀ x ∈ gs, ∃ u v, w = u ++ v ∧ x.2.start = width (pre ++ u)

theorem startsGroups_accepts (p : Pattern) : StartsGroups p.Accepts := by
  intro pre w post gs h x hx
  obtain ⟨u, v, hw, hstart⟩ := groupsWithin_accepts p pre w post gs h x hx
  exact ⟨u, x.2.chars ++ v, hw, hstart⟩

/-- The offsets that a match names lie around what they name. -/
structure IsPlaced (s : List Char) (m : Match) : Prop where
  whole : slice s m.start m.stop = .ok m.whole.chars
  /-- The offset just past the match, by which a reader goes on. -/
  after : slice s m.stop (width s) = .ok m.after.rest
  /-- The offset at which the match starts. -/
  before : slice s 0 m.start = .ok (takeBytes m.start s)
  groups : ∀ i g, m.group? i = some g → slice s g.start g.stop = .ok g.chars

/-- The entries of a list of pairs in which a key is found. -/
theorem mem_of_lookup {α β : Type} [BEq α] [LawfulBEq α] {k : α} {v : β} {l : List (α × β)}
    (h : l.lookup k = some v) : (k, v) ∈ l := by
  obtain ⟨l₁, l₂, rfl, -⟩ := List.lookup_eq_some_iff.mp h
  simp

/-- A match is placed where it stands. -/
theorem Occurs.isPlaced {p : Pattern} {s : List Char} {m : Match} (h : p.Occurs s m) :
    IsPlaced s m := by
  obtain ⟨a, w, b, gs, rfl, hacc, rfl⟩ := h
  have hbefore : slice (a ++ w ++ b) 0 (width a) = .ok (takeBytes (width a) (a ++ w ++ b)) := by
    rw [List.append_assoc, slice_left, takeBytes_width_append]
  exact {
    whole := slice_append a w b
    after := slice_right (a ++ w) b
    before := hbefore
    groups := fun _ g hg => groupsLie_accepts p _ _ _ _ hacc _ (mem_of_lookup hg) }

/-! ## Groups that are always there -/

/-- The groups that take part in every match of a pattern. -/
def always : Pattern → List Nat
  | .seq p q => always p ++ always q
  | .alt p q => (always p).filter fun i => (always q).contains i
  | .plus p => always p
  | .lazyPlus p => always p
  | .group index p => index :: always p
  | _ => []

theorem exists_group_of_mem_always {p : Pattern} {i : Nat} (hi : i ∈ always p) :
    ∀ {pre w post gs}, p.Accepts pre w post gs → ∃ g, (i, g) ∈ gs := by
  induction p with
  | empty | char | any | oneOf | noneOf | atStart | atEnd | wordEdge | opt | star =>
      simp [always] at hi
  | seq p q ihp ihq =>
      rintro pre w post gs ⟨u, v, gu, gv, rfl, rfl, hu, hv⟩
      rcases List.mem_append.mp hi with hi | hi
      · obtain ⟨g, hg⟩ := ihp hi hu
        exact ⟨g, List.mem_append_right _ hg⟩
      · obtain ⟨g, hg⟩ := ihq hi hv
        exact ⟨g, List.mem_append_left _ hg⟩
  | alt p q ihp ihq =>
      rw [always, List.mem_filter, List.contains_iff_mem] at hi
      rintro pre w post gs (h | h)
      · exact ihp hi.1 h
      · exact ihq hi.2 h
  | plus p ihp | lazyPlus p ihp =>
      rintro pre w post gs ⟨u, v, gu, gv, rfl, rfl, hu, -⟩
      obtain ⟨g, hg⟩ := ihp hi hu
      exact ⟨g, List.mem_append_right _ hg⟩
  | group index p ihp =>
      rintro pre w post gs ⟨g, hacc, rfl⟩
      rcases List.mem_cons.mp hi with rfl | hi
      · exact ⟨_, List.mem_cons_self ..⟩
      · obtain ⟨g', hg'⟩ := ihp hi hacc
        exact ⟨g', List.mem_cons_of_mem _ hg'⟩

theorem Occurs.group?_isSome {p : Pattern} {s : List Char} {m : Match} (h : p.Occurs s m) {i : Nat}
    (hi : i ∈ always p) : (m.group? i).isSome = true := by
  obtain ⟨a, w, b, gs, rfl, hacc, rfl⟩ := h
  obtain ⟨g, hg⟩ := exists_group_of_mem_always hi hacc
  rw [Match.group?, Match.of_groups, Option.isSome_iff_ne_none, Ne, List.lookup_eq_none_iff]
  intro hnone
  simpa using hnone _ hg

/-- The patterns of which the readers take groups for granted, with these groups. -/
def givenGroups : List (Pattern × List Nat) :=
  [(Function.header, [1, 3]), (Script.classNameClause, [1]), (Script.extendsClause, [1]),
    (Script.innerClassHeader, [1, 2]), (Script.constantDeclaration, [1, 2, 4]),
    (Script.variableDeclaration, [1, 2, 4]), (Script.signalDeclaration, [1, 2]),
    (Script.enumHeader, [1, 3]), (Script.annotationShape, [1]), (Script.loadCall, [1, 2]),
    (Script.binding, [1]), (Script.dollarPath, [1]), (Script.uniqueName, [1]),
    (Script.lookupCall, [1, 2]), (Script.awaitExpression, [1]), (Script.matchHeader, [1, 2]),
    (Script.bracketAccess, [1]), (Script.callAccess, [1, 2]), (Marker.shape, [1, 3]),
    (Marker.contextHeader, [1, 2]), (Mention.resourceString, [1]),
    (Mention.callWithName "emit_signal", [1]), (Mention.callWithName "connect", [1]),
    (Mention.methodCall "emit", [1]), (Mention.methodCall "connect", [1]),
    (Mention.actionCall, [1, 2]), (Mention.quoted, [1]), (Suppression.directive, [1, 2]),
    (Script.preloadedConstant, [1])]

/-- They are there in every match. -/
theorem givenGroups_subset_always : ∀ x ∈ givenGroups, x.2 ⊆ always x.1 := by
  decide +kernel

end GodotLint.Pattern
