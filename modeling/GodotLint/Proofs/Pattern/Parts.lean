import GodotLint.Proofs.Pattern.Accepts

/-!
# What the building blocks of patterns accept, and in which order

One equivalence for each way of building a pattern, in a form that `simp` can use: blanks,
literal texts, identifiers and repetitions of single characters accept a text by a property of
its characters, wherever it stands, and remember nothing.
-/

namespace GodotLint

open Text

/-! ## Identifiers -/

namespace Text

/-- Characters that start an identifier: ASCII letters and the underscore. -/
def isIdentStart (c : Char) : Bool := isAsciiLetter c || c == '_'

/-- The start of an identifier may also stand inside one. -/
theorem isIdentChar_of_isIdentStart {c : Char} (h : isIdentStart c = true) :
    isIdentChar c = true := by
  simp only [isIdentStart, isIdentChar, isAsciiAlnum, Bool.or_eq_true] at h ⊢
  tauto

/-- An identifier: a start and any number of letters, digits and underscores. -/
def isIdent : List Char → Bool
  | [] => false
  | c :: rest => isIdentStart c && rest.all isIdentChar

/-- An identifier is made of letters, digits and underscores. -/
theorem isIdentChar_of_isIdent {s : List Char} (h : isIdent s = true) :
    ∀ c ∈ s, isIdentChar c = true := by
  cases s with
  | nil => cases h
  | cons d s =>
      rw [isIdent, Bool.and_eq_true, List.all_eq_true] at h
      rintro c (_ | ⟨_, hc⟩)
      · exact isIdentChar_of_isIdentStart h.1
      · exact h.2 c hc

/-- An identifier is not empty. -/
theorem ne_nil_of_isIdent {s : List Char} (h : isIdent s = true) : s ≠ [] := by
  rintro rfl
  cases h

end Text

namespace Pattern

variable {p q : Pattern} {pre w post : List Char} {gs : List (Nat × Span)}

/-! ## Combinations -/

theorem accepts_append : (p ++ q).Accepts pre w post gs ↔
    ∃ u v gu gv, w = u ++ v ∧ gs = gv ++ gu ∧ p.Accepts pre u (v ++ post) gu ∧
      q.Accepts (pre ++ u) v post gv := Iff.rfl

theorem accepts_orElse : (p <|> q).Accepts pre w post gs ↔
    p.Accepts pre w post gs ∨ q.Accepts pre w post gs := Iff.rfl

theorem accepts_opt : (opt p).Accepts pre w post gs ↔
    p.Accepts pre w post gs ∨ w = [] ∧ gs = [] := Iff.rfl

theorem accepts_group {index : Nat} : (group index p).Accepts pre w post gs ↔
    ∃ g, p.Accepts pre w post g ∧ gs = (index, ⟨width pre, w⟩) :: g := Iff.rfl

/-- It does not matter which of three parts are put together first. -/
theorem accepts_append_assoc {r : Pattern} : (p ++ q ++ r).Accepts pre w post gs ↔
    (p ++ (q ++ r)).Accepts pre w post gs := by
  constructor
  · rintro ⟨_, c, _, gc, rfl, rfl, ⟨a, b, ga, gb, rfl, rfl, ha, hb⟩, hc⟩
    exact ⟨a, b ++ c, ga, gc ++ gb, by simp, by simp, by simpa using ha,
      ⟨b, c, gb, gc, rfl, rfl, hb, by simpa using hc⟩⟩
  · rintro ⟨a, _, ga, _, rfl, rfl, ha, ⟨b, c, gb, gc, rfl, rfl, hb, hc⟩⟩
    exact ⟨a ++ b, c, gb ++ ga, gc, by simp, by simp, ⟨a, b, ga, gb, rfl, rfl, by simpa using ha, hb⟩,
      by simpa using hc⟩

/-- Putting a pattern that remembers nothing in front. -/
theorem accepts_append_of_left {P : List Char → Prop}
    (hp : ∀ pre w post gs, p.Accepts pre w post gs ↔ P w ∧ gs = []) :
    (p ++ q).Accepts pre w post gs ↔
      ∃ u v, w = u ++ v ∧ P u ∧ q.Accepts (pre ++ u) v post gs := by
  simp only [accepts_append, hp]
  constructor
  · rintro ⟨u, v, gu, gv, rfl, rfl, ⟨hu, rfl⟩, hv⟩
    exact ⟨u, v, rfl, hu, by simpa using hv⟩
  · rintro ⟨u, v, rfl, hu, hv⟩
    exact ⟨u, v, [], gs, rfl, by simp, ⟨hu, rfl⟩, hv⟩

/-- Putting a pattern that remembers nothing behind. -/
theorem accepts_append_of_right {P : List Char → Prop}
    (hq : ∀ pre w post gs, q.Accepts pre w post gs ↔ P w ∧ gs = []) :
    (p ++ q).Accepts pre w post gs ↔
      ∃ u v, w = u ++ v ∧ p.Accepts pre u (v ++ post) gs ∧ P v := by
  simp only [accepts_append, hq]
  constructor
  · rintro ⟨u, v, gu, gv, rfl, rfl, hu, hv, rfl⟩
    exact ⟨u, v, rfl, by simpa using hu, hv⟩
  · rintro ⟨u, v, rfl, hu, hv⟩
    exact ⟨u, v, gs, [], rfl, by simp, hu, hv, rfl⟩

/-- A pattern that is anchored at the start of a text. -/
theorem accepts_atStart_append : (atStart ++ q).Accepts pre w post gs ↔
    pre = [] ∧ q.Accepts pre w post gs := by
  rw [accepts_append]
  constructor
  · rintro ⟨_, v, _, _, rfl, rfl, ⟨rfl, rfl, hpre⟩, hv⟩
    exact ⟨hpre, by simpa using hv⟩
  · rintro ⟨hpre, hq⟩
    exact ⟨[], w, [], gs, rfl, by simp, ⟨rfl, rfl, hpre⟩, by simpa using hq⟩

/-- A pattern that is anchored at the end of a text. -/
theorem accepts_append_atEnd : (p ++ atEnd).Accepts pre w post gs ↔
    p.Accepts pre w post gs ∧ post = [] := by
  rw [accepts_append]
  constructor
  · rintro ⟨u, _, _, _, rfl, rfl, hu, rfl, rfl, hpost⟩
    exact ⟨by simpa using hu, hpost⟩
  · rintro ⟨hp, hpost⟩
    exact ⟨w, [], gs, [], by simp, rfl, by simpa using hp, rfl, rfl, hpost⟩

/-- A text does not end within a word. -/
def EndsOutsideWord (s : List Char) : Prop := ∀ x ∈ s.getLast?, isWordChar x = false

instance (s : List Char) : Decidable (EndsOutsideWord s) :=
  decidable_of_iff (s.getLast?.all (!isWordChar ·) = true) (by
    simp [EndsOutsideWord, Option.all_eq_true])

/-- A word starts where the text before it does not end within one. -/
theorem isWordEdge_between_cons {x : Char} (hx : isWordChar x = true) :
    (Cursor.between pre (x :: post)).isWordEdge = true ↔ EndsOutsideWord pre := by
  rw [Cursor.isWordEdge, Cursor.between_previous, Cursor.between_rest, List.head?_cons,
    Option.elim_some, hx, EndsOutsideWord]
  cases pre.getLast? <;> simp

/-- A pattern that asks for an edge of a word first. -/
theorem accepts_wordEdge_append : (wordEdge ++ q).Accepts pre w post gs ↔
    (Cursor.between pre (w ++ post)).isWordEdge = true ∧ q.Accepts pre w post gs := by
  rw [accepts_append]
  constructor
  · rintro ⟨_, v, _, _, rfl, rfl, ⟨rfl, rfl, hedge⟩, hv⟩
    exact ⟨hedge, by simpa using hv⟩
  · rintro ⟨hedge, hq⟩
    exact ⟨[], w, [], gs, rfl, by simp, ⟨rfl, rfl, hedge⟩, by simpa using hq⟩

/-- Putting together two patterns about which it is known what they accept. -/
theorem accepts_append_congr {L R : List Char → List Char → List (Nat × Span) → Prop}
    (hp : ∀ pre w post gs, p.Accepts pre w post gs ↔ L pre w gs)
    (hq : ∀ pre w post gs, q.Accepts pre w post gs ↔ R pre w gs) :
    (p ++ q).Accepts pre w post gs ↔
      ∃ u v gu gv, w = u ++ v ∧ gs = gv ++ gu ∧ L pre u gu ∧ R (pre ++ u) v gv := by
  simp only [accepts_append, hp, hq]

/-! ## Single characters -/

theorem accepts_char {c : Char} : (char c).Accepts pre w post gs ↔ w = [c] ∧ gs = [] := by
  constructor
  · rintro ⟨x, rfl, hx, rfl⟩
    rw [beq_iff_eq] at hx
    exact ⟨by rw [hx], rfl⟩
  · rintro ⟨rfl, rfl⟩
    exact ⟨c, rfl, beq_self_eq_true c, rfl⟩

theorem accepts_any : any.Accepts pre w post gs ↔ (∃ x, w = [x] ∧ x ≠ '\n') ∧ gs = [] := by
  constructor
  · rintro ⟨x, rfl, hx, rfl⟩
    exact ⟨⟨x, rfl, by simpa using hx⟩, rfl⟩
  · rintro ⟨⟨x, rfl, hx⟩, rfl⟩
    exact ⟨x, rfl, by simpa using hx, rfl⟩

theorem accepts_oneOf {items : List ClassItem} : (oneOf items).Accepts pre w post gs ↔
    (∃ x, w = [x] ∧ items.any (·.holds x) = true) ∧ gs = [] := by
  constructor
  · rintro ⟨x, rfl, hx, rfl⟩
    exact ⟨⟨x, rfl, hx⟩, rfl⟩
  · rintro ⟨⟨x, rfl, hx⟩, rfl⟩
    exact ⟨x, rfl, hx, rfl⟩

/-- The class of the characters of a text. -/
theorem any_only_holds_iff {s : String} {x : Char} :
    (s.toList.map ClassItem.only).any (·.holds x) = true ↔ x ∈ s.toList := by
  simp [ClassItem.holds, List.any_map]

theorem accepts_charOf {s : String} : (charOf s).Accepts pre w post gs ↔
    (∃ x, w = [x] ∧ x ∈ s.toList) ∧ gs = [] := by
  simp only [charOf, accepts_oneOf, any_only_holds_iff]

theorem accepts_charNotOf {s : String} : (charNotOf s).Accepts pre w post gs ↔
    (∃ x, w = [x] ∧ x ∉ s.toList) ∧ gs = [] := by
  simp only [← any_only_holds_iff, Bool.not_eq_true]
  constructor
  · rintro ⟨x, rfl, hx, rfl⟩
    exact ⟨⟨x, rfl, by simpa using hx⟩, rfl⟩
  · rintro ⟨⟨x, rfl, hx⟩, rfl⟩
    exact ⟨x, rfl, by simp [hx], rfl⟩

/-! ## Repetitions of single characters -/

theorem repeats_iff {R : Acceptance} {P : Char → Prop}
    (hR : ∀ pre w post gs, R pre w post gs ↔ (∃ x, w = [x] ∧ P x) ∧ gs = []) :
    Repeats R pre w post gs ↔ (∀ x ∈ w, P x) ∧ gs = [] := by
  constructor
  · intro h
    induction h with
    | none => simp
    | more first _ _ ih =>
        obtain ⟨⟨x, rfl, hx⟩, rfl⟩ := (hR ..).mp first
        obtain ⟨hall, rfl⟩ := ih
        exact ⟨by simpa [hx] using hall, rfl⟩
  · rintro ⟨hall, rfl⟩
    induction w generalizing pre with
    | nil => exact .none _ _
    | cons x w ih =>
        have hx : R pre [x] (w ++ post) [] := (hR ..).mpr ⟨⟨x, rfl, hall x (by simp)⟩, rfl⟩
        exact .more hx (by simp) (ih fun y hy => hall y (by simp [hy]))

theorem accepts_star {P : Char → Prop}
    (hp : ∀ pre w post gs, p.Accepts pre w post gs ↔ (∃ x, w = [x] ∧ P x) ∧ gs = []) :
    (star p).Accepts pre w post gs ↔ (∀ x ∈ w, P x) ∧ gs = [] := repeats_iff hp

theorem accepts_plus {P : Char → Prop}
    (hp : ∀ pre w post gs, p.Accepts pre w post gs ↔ (∃ x, w = [x] ∧ P x) ∧ gs = []) :
    (plus p).Accepts pre w post gs ↔ (w ≠ [] ∧ ∀ x ∈ w, P x) ∧ gs = [] := by
  constructor
  · rintro ⟨u, v, gu, gv, rfl, rfl, hu, hv⟩
    obtain ⟨⟨x, rfl, hx⟩, rfl⟩ := (hp ..).mp hu
    obtain ⟨hall, rfl⟩ := (repeats_iff hp).mp hv
    simpa [hx] using hall
  · rintro ⟨⟨hne, hall⟩, rfl⟩
    obtain ⟨x, w, rfl⟩ := List.exists_cons_of_ne_nil hne
    refine ⟨[x], w, [], [], rfl, rfl, (hp ..).mpr ⟨⟨x, rfl, hall x (by simp)⟩, rfl⟩, ?_⟩
    exact (repeats_iff hp).mpr ⟨fun y hy => hall y (by simp [hy]), rfl⟩

theorem accepts_star_char {c : Char} : (star (char c)).Accepts pre w post gs ↔
    (∀ x ∈ w, x = c) ∧ gs = [] :=
  accepts_star fun _ _ _ _ => by simp [accepts_char]

theorem accepts_plus_char {c : Char} : (plus (char c)).Accepts pre w post gs ↔
    (w ≠ [] ∧ ∀ x ∈ w, x = c) ∧ gs = [] :=
  accepts_plus fun _ _ _ _ => by simp [accepts_char]

theorem accepts_blanks : blanks.Accepts pre w post gs ↔ (∀ x ∈ w, isBlank x = true) ∧ gs = [] :=
  accepts_star fun _ _ _ _ => by simp [accepts_oneOf, ClassItem.holds]

theorem accepts_blanks1 : blanks1.Accepts pre w post gs ↔
    (w ≠ [] ∧ ∀ x ∈ w, isBlank x = true) ∧ gs = [] :=
  accepts_plus fun _ _ _ _ => by simp [accepts_oneOf, ClassItem.holds]

/-! ## Repetitions of words -/

/-- A repetition of words that are accepted wherever they stand. -/
theorem accepts_star_words {P : List Char → Prop}
    (hp : ∀ pre w post gs, p.Accepts pre w post gs ↔ P w ∧ gs = []) (hne : ¬ P []) :
    (star p).Accepts pre w post gs ↔
      (∃ ws : List (List Char), w = ws.flatten ∧ ∀ v ∈ ws, P v) ∧ gs = [] := by
  constructor
  · intro h
    change Repeats p.Accepts pre w post gs at h
    induction h with
    | none => exact ⟨⟨[], rfl, by simp⟩, rfl⟩
    | more first _ _ ih =>
        obtain ⟨hu, rfl⟩ := (hp ..).mp first
        obtain ⟨⟨ws, rfl, hws⟩, rfl⟩ := ih
        exact ⟨⟨_ :: ws, rfl, by simpa [hu] using hws⟩, rfl⟩
  · rintro ⟨⟨ws, rfl, hws⟩, rfl⟩
    induction ws generalizing pre with
    | nil => exact .none pre post
    | cons v ws ih =>
        have hv : P v := hws v List.mem_cons_self
        have hv0 : v ≠ [] := by
          rintro rfl
          exact hne hv
        exact .more ((hp ..).mpr ⟨hv, rfl⟩) hv0 (ih fun u hu => hws u (List.mem_cons_of_mem v hu))

/-! ## Literal texts and identifiers -/

theorem accepts_chars : ∀ {cs pre w post gs}, (chars cs).Accepts pre w post gs ↔ w = cs ∧ gs = []
  | [], _, _, _, _ => by simp [chars, Accepts, Between]
  | [c], _, _, _, _ => accepts_char
  | c :: d :: cs, pre, w, post, gs => by
      change (char c ++ chars (d :: cs)).Accepts pre w post gs ↔ _
      rw [accepts_append_of_left fun _ _ _ _ => accepts_char]
      simp only [accepts_chars]
      constructor
      · rintro ⟨u, v, rfl, rfl, rfl, rfl⟩
        exact ⟨rfl, rfl⟩
      · rintro ⟨rfl, rfl⟩
        exact ⟨[c], d :: cs, rfl, rfl, rfl, rfl⟩

theorem accepts_lit {s : String} : (lit s).Accepts pre w post gs ↔ w = s.toList ∧ gs = [] :=
  accepts_chars

/-- One of several texts. -/
theorem accepts_word {texts : List String} (hne : texts ≠ []) :
    (word texts).Accepts pre w post gs ↔ (∃ t ∈ texts, w = t.toList) ∧ gs = [] := by
  induction texts with
  | nil => exact absurd rfl hne
  | cons t texts ih =>
      cases texts with
      | nil =>
          change (lit t).Accepts pre w post gs ↔ _
          simp [accepts_lit]
      | cons t' texts =>
          change (lit t <|> word (t' :: texts)).Accepts pre w post gs ↔ _
          rw [accepts_orElse, accepts_lit, ih (List.cons_ne_nil _ _), List.exists_mem_cons_iff _ t,
            or_and_right]

theorem accepts_identStart : identStart.Accepts pre w post gs ↔
    (∃ x, w = [x] ∧ isIdentStart x = true) ∧ gs = [] := by
  rw [identStart, accepts_oneOf]
  simp [ClassItem.holds, isIdentStart, isAsciiLetter, isAsciiUpper, isAsciiLower, or_assoc]

theorem accepts_identPart : identPart.Accepts pre w post gs ↔
    (∃ x, w = [x] ∧ isIdentChar x = true) ∧ gs = [] := by
  rw [identPart, accepts_oneOf]
  simp [ClassItem.holds, isIdentChar, isAsciiAlnum, isAsciiLetter, isAsciiUpper, isAsciiLower,
    isAsciiDigit, or_assoc]

theorem accepts_ident : ident.Accepts pre w post gs ↔ isIdent w = true ∧ gs = [] := by
  rw [ident, accepts_append_of_left fun _ _ _ _ => accepts_identStart]
  simp only [accepts_star fun _ _ _ _ => accepts_identPart]
  constructor
  · rintro ⟨u, v, rfl, ⟨x, rfl, hx⟩, hv, rfl⟩
    simpa [isIdent, hx] using hv
  · rintro ⟨h, rfl⟩
    cases w with
    | nil => simp [isIdent] at h
    | cons x w =>
        simp only [isIdent, Bool.and_eq_true, List.all_eq_true] at h
        exact ⟨[x], w, rfl, ⟨x, rfl, h.1⟩, h.2, rfl⟩

/-! ## Where a pattern starts -/

theorem starts_append_assoc {r : Pattern} : (p ++ q ++ r).Starts pre post ↔
    (p ++ (q ++ r)).Starts pre post := by
  simp only [Starts, accepts_append_assoc]

/-- A part that accepts a text by its characters alone, and another one behind it. -/
theorem starts_append {P : List Char → Prop}
    (hp : ∀ pre w post, (∃ gs, p.Accepts pre w post gs) ↔ P w) :
    (p ++ q).Starts pre post ↔ ∃ u v, post = u ++ v ∧ P u ∧ q.Starts (pre ++ u) v := by
  constructor
  · rintro ⟨_, rest, _, rfl, u, v, gu, gv, rfl, rfl, hu, hv⟩
    exact ⟨u, v ++ rest, by simp, (hp ..).mp ⟨gu, hu⟩, v, rest, gv, rfl, hv⟩
  · rintro ⟨u, _, rfl, hu, v, rest, gv, rfl, hv⟩
    obtain ⟨gu, hu⟩ := (hp pre u (v ++ rest)).mpr hu
    exact ⟨u ++ v, rest, gv ++ gu, by simp, u, v, gu, gv, rfl, rfl, hu, hv⟩

/-- A part that remembers nothing, and another one behind it. -/
theorem starts_append_of_left {P : List Char → Prop}
    (hp : ∀ pre w post gs, p.Accepts pre w post gs ↔ P w ∧ gs = []) :
    (p ++ q).Starts pre post ↔ ∃ u v, post = u ++ v ∧ P u ∧ q.Starts (pre ++ u) v :=
  starts_append fun pre w post => by simp [hp]

theorem starts_wordEdge_append : (wordEdge ++ q).Starts pre post ↔
    (Cursor.between pre post).isWordEdge = true ∧ q.Starts pre post := by
  simp only [Starts, accepts_wordEdge_append]
  constructor
  · rintro ⟨w, rest, gs, rfl, hedge, hq⟩
    exact ⟨hedge, w, rest, gs, rfl, hq⟩
  · rintro ⟨hedge, w, rest, gs, rfl, hq⟩
    exact ⟨w, rest, gs, rfl, hedge, hq⟩

theorem starts_alt : (alt p q).Starts pre post ↔ p.Starts pre post ∨ q.Starts pre post := by
  constructor
  · rintro ⟨w, rest, gs, rfl, h | h⟩
    · exact .inl ⟨w, rest, gs, rfl, h⟩
    · exact .inr ⟨w, rest, gs, rfl, h⟩
  · rintro (⟨w, rest, gs, rfl, h⟩ | ⟨w, rest, gs, rfl, h⟩)
    · exact ⟨w, rest, gs, rfl, .inl h⟩
    · exact ⟨w, rest, gs, rfl, .inr h⟩

end Pattern

end GodotLint

/-!
## The way a search takes

What a pattern accepts does not say which of several ways a search prefers. Here the search is followed
through the parts of a pattern: the first of two alternatives that succeeds (`matchAt?_alt`), and as many
characters of a class as there are if what comes after them succeeds (`run_star_of_stop`). An identifier is
thus matched to its end (`matchAt?_ident`).
-/

namespace GodotLint.Pattern

open Text

variable {p q : Pattern} {pre w rest : List Char} {gs : List (Nat × Span)} {k : Continuation}

/-! ## One character -/

section consume

variable {P : Char → Bool} {x : Char}

theorem consume_at_cons : consume P (.at pre (x :: rest) gs) k =
    if P x then k (.at (pre ++ [x]) rest gs) else none := by
  simp only [consume, Progress.at, Cursor.next?_between_cons]

theorem consume_eq_none (h : ∀ x ∈ rest.head?, P x = false) : consume P (.at pre rest gs) k = none := by
  cases rest with
  | nil => rfl
  | cons x rest => simp [consume_at_cons, h x rfl]

end consume

/-! ## Alternatives -/

/-- The match of an alternative is that of the first part that has one. -/
theorem matchAt?_alt (c : Cursor) : (alt p q).matchAt? c = (p.matchAt? c).or (q.matchAt? c) := by
  rw [matchAt?, run_alt, Option.map_or]
  rfl

/-! ## Repetitions of one character -/

variable {items : List ClassItem}

/-- A repetition consumes once more and goes on, if that succeeds, and stops otherwise. -/
theorem run_star_oneOf : (star (oneOf items)).run (.at pre rest gs) k =
    ((oneOf items).run (.at pre rest gs) fun t => (star (oneOf items)).run t k).or
      (k (.at pre rest gs)) := by
  cases rest with
  | nil => rfl
  | cons x rest =>
      refine (repeatGreedy_succ _ rest.length).trans ?_
      rw [goOn]
      change (consume _ _ _).or _ = (consume _ _ _).or _
      rw [consume_at_cons, consume_at_cons, if_pos ((offset_lt_iff ..).mpr (List.cons_ne_nil x []))]
      rfl

/-- A repetition goes on to the end of the characters of its class. -/
theorem run_star_of_stop (hw : ∀ x ∈ w, items.any (·.holds x) = true)
    (hrest : ∀ x ∈ rest.head?, items.any (·.holds x) = false)
    (hk : (k (.at (pre ++ w) rest gs)).isSome = true) :
    (star (oneOf items)).run (.at pre (w ++ rest) gs) k = k (.at (pre ++ w) rest gs) := by
  induction w generalizing pre with
  | nil =>
      rw [List.nil_append, List.append_nil, run_star_oneOf]
      change (consume _ _ _).or _ = _
      rw [consume_eq_none hrest, Option.none_or]
  | cons x w ih =>
      rw [List.cons_append, run_star_oneOf]
      change (consume _ _ _).or _ = _
      have hlater : pre ++ x :: w = pre ++ [x] ++ w := by simp
      rw [consume_at_cons, if_pos (hw x List.mem_cons_self), hlater,
        ih (fun y hy => hw y (List.mem_cons_of_mem x hy)) (by simpa using hk)]
      rw [hlater] at hk
      obtain ⟨r, hr⟩ := Option.isSome_iff_exists.mp hk
      rw [hr, Option.some_or]

/-! ## Matches -/

/-- The match of what a search goes on with. -/
theorem matchAt?_of_run (h : p.run (.at pre (w ++ rest) []) some = some (.at (pre ++ w) rest gs)) :
    p.matchAt? (.between pre (w ++ rest)) = some (.of pre w rest gs) := by
  rw [matchAt?]
  change (p.run (.at pre (w ++ rest) []) some).map _ = _
  rw [h, Option.map_some]
  simp [Match.of, Progress.at, Cursor.between]

theorem holds_identStart (x : Char) :
    [ClassItem.range 'A' 'Z', .range 'a' 'z', .only '_'].any (·.holds x) = isIdentStart x := by
  simp [ClassItem.holds, isIdentStart, isAsciiLetter, isAsciiUpper, isAsciiLower, Bool.or_assoc]

theorem holds_identPart (x : Char) :
    [ClassItem.range 'A' 'Z', .range 'a' 'z', .range '0' '9', .only '_'].any (·.holds x) =
      isIdentChar x := by
  simp [ClassItem.holds, isIdentChar, isAsciiAlnum, isAsciiLetter, isAsciiUpper, isAsciiLower,
    isAsciiDigit, Bool.or_assoc]

/-- An identifier is matched to its end. -/
theorem matchAt?_ident {index : Nat} (hw : isIdent w = true)
    (hrest : ∀ x ∈ rest.head?, isIdentChar x = false) :
    (group index ident).matchAt? (.between pre (w ++ rest)) =
      some (.of pre w rest [(index, ⟨width pre, w⟩)]) := by
  refine matchAt?_of_run ?_
  cases w with
  | nil => simp [isIdent] at hw
  | cons x w =>
      obtain ⟨hx, hw⟩ := Bool.and_eq_true_iff.mp hw
      have hall : ∀ y ∈ w, isIdentChar y = true := List.all_eq_true.mp hw
      have hlater : pre ++ x :: w = pre ++ [x] ++ w := by simp
      -- one character that an identifier starts with, and then the others
      change identStart.run (.at pre (x :: (w ++ rest)) []) (fun t => (star identPart).run t fun t =>
        some (remember index (.at pre (x :: w ++ rest) []) t)) = _
      rw [identStart, run, consume_at_cons, holds_identStart, if_pos hx, identPart, run_star_of_stop]
      · rw [← hlater, remember_at]
      · simpa only [holds_identPart] using hall
      · simpa only [holds_identPart] using hrest
      · rfl

end GodotLint.Pattern
