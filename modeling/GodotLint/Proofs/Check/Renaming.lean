import GodotLint.Check.Repetition
import GodotLint.Proofs.Pattern.Lockstep
import GodotLint.Proofs.Pattern.Replacing
import GodotLint.Proofs.Script.Strings
import GodotLint.Proofs.Text.Bytes

/-!
# Renamed code has the same normal form

Names outside of string literals may be replaced one by one (`Renamed`). A name starts behind a character
that is neither part of a name nor a digit, so that no number can grow into it: what the token pattern
reads behind a digit stays until such a character comes. Where a character stays, the two searches for a
token are therefore abreast (`carries_token`); at a literal and at a name that is replaced the token is
known (`matchAt?_token_literal`, `matchAt?_token_name`).
-/

namespace GodotLint.Check.Repetition

open Text Pattern Quoting

/-! ## Renamings -/

/-- A name that may be replaced: an identifier that is not a word of the language. -/
def IsName (w : List Char) : Prop := isIdent w = true ∧ keywords.contains (String.ofList w) = false

instance (w : List Char) : Decidable (IsName w) := inferInstanceAs (Decidable (_ ∧ _))

/-- A text starts with a string literal. -/
def StartsLiteral (s : List Char) : Prop :=
  ∃ mark body rest, IsMark mark ∧ LiteralBody mark body ∧ s = mark :: (body ++ mark :: rest)

/-- Whether a name may start behind a character: not inside of another name, and not directly behind a
digit of whichever script. -/
def opens (c : Char) : Bool := !(isIdentChar c || isDigit c)

/-- The second text is the first one with names outside of string literals replaced by others, a name at
the beginning only if `free`. -/
inductive Renamed : (free : Bool) → List Char → List Char → Prop
  | nil {free : Bool} : Renamed free [] []
  | literal {free : Bool} {mark : Char} {body s t : List Char} (hmark : IsMark mark)
      (hbody : LiteralBody mark body) (rest : Renamed true s t) :
      Renamed free (mark :: (body ++ mark :: s)) (mark :: (body ++ mark :: t))
  | keep {free : Bool} {c : Char} {s t : List Char} (no_literal : ¬ StartsLiteral (c :: s))
      (rest : Renamed (opens c) s t) : Renamed free (c :: s) (c :: t)
  | rename {w w' s t : List Char} (hw : IsName w) (hw' : IsName w')
      (whole : ∀ c ∈ s.head?, isIdentChar c = false) (rest : Renamed false s t) :
      Renamed true (w ++ s) (w' ++ t)

section characters

variable {c : Char}

theorem exists_cons_of_isIdent {w : List Char} (h : isIdent w = true) :
    ∃ c v, w = c :: v ∧ isIdentStart c = true := by
  cases w with
  | nil => cases h
  | cons c v => exact ⟨c, v, rfl, (Bool.and_eq_true_iff.mp h).1⟩

theorem isDigit_of_isIdentStart (h : isIdentStart c = true) : isDigit c = false := by
  rw [isDigit, if_pos (isAscii_of_isIdentChar (isIdentChar_of_isIdentStart h)), Bool.eq_false_iff]
  intro hdigit
  simp only [isIdentStart, isAsciiLetter, isAsciiUpper, isAsciiLower, isAsciiDigit, Bool.or_eq_true,
    Bool.and_eq_true, decide_eq_true_eq, beq_iff_eq] at h hdigit
  rcases h with (⟨hA, -⟩ | ⟨ha, -⟩) | rfl
  · exact absurd (le_trans hA hdigit.2) (by decide)
  · exact absurd (le_trans ha hdigit.2) (by decide)
  · exact absurd hdigit.2 (by decide)

theorem opens_of_isIdentChar (h : isIdentChar c = true) : opens c = false := by simp [opens, h]

theorem opens_of_isDigit (h : isDigit c = true) : opens c = false := by simp [opens, h]

end characters

namespace Renamed

variable {free : Bool} {s t : List Char}

/-- What may be replaced in some place may be so where a name may start. -/
theorem mono (h : Renamed free s t) : Renamed true s t := by
  cases h with
  | nil => exact .nil
  | literal hmark hbody rest => exact .literal hmark hbody rest
  | keep no_literal rest => exact .keep no_literal rest
  | rename hw hw' whole rest => exact .rename hw hw' whole rest

/-- Text without quotation marks may stay in front. -/
theorem append_left {u : List Char} {c : Char} (hu : ∀ d ∈ u, ¬ IsMark d) (hc : ¬ IsMark c)
    (h : Renamed (opens c) s t) : Renamed free (u ++ c :: s) (u ++ c :: t) := by
  have hplain : ∀ {d : Char} {v : List Char}, ¬ IsMark d → ¬ StartsLiteral (d :: v) := by
    rintro d v hd ⟨mark, body, rest, hmark, -, heq⟩
    exact hd ((List.cons.inj heq).1 ▸ hmark)
  induction u generalizing free with
  | nil => exact .keep (hplain hc) h
  | cons d u ih =>
      obtain ⟨hd, hu⟩ := List.forall_mem_cons.mp hu
      exact .keep (hplain hd) (ih hu)

/-- Behind what stays, both texts start with the same character, or with a name if one may start
there. -/
theorem head_cases (h : Renamed free s t) : s.head? = t.head? ∨
    free = true ∧ ∃ c d, s.head? = some c ∧ t.head? = some d ∧ isIdentStart c = true ∧
      isIdentStart d = true := by
  cases h with
  | nil => exact .inl rfl
  | literal => exact .inl rfl
  | keep => exact .inl rfl
  | rename hw hw' =>
      obtain ⟨c, v, rfl, hc⟩ := exists_cons_of_isIdent hw.1
      obtain ⟨d, v', rfl, hd⟩ := exists_cons_of_isIdent hw'.1
      exact .inr ⟨rfl, c, d, rfl, rfl, hc, hd⟩

/-- Where no name may start, both texts start with the same character. -/
theorem head_eq (h : Renamed false s t) : s.head? = t.head? := by
  rcases h.head_cases with heq | ⟨hfree, -⟩
  · exact heq
  · cases hfree

/-- The characters that both texts start with are characters of words, or neither is. -/
theorem head_isWordChar (h : Renamed free s t) :
    s.head?.elim false isWordChar = t.head?.elim false isWordChar := by
  rcases h.head_cases with heq | ⟨-, c, d, hs, ht, hc, hd⟩
  · rw [heq]
  · rw [hs, ht, Option.elim_some, Option.elim_some,
      isWordChar_of_isIdentChar (isIdentChar_of_isIdentStart hc),
      isWordChar_of_isIdentChar (isIdentChar_of_isIdentStart hd)]

end Renamed

/-! ## Searches abreast -/

section lockstep

variable {o : Places} {free : Bool} {S : Ahead} {P : Char → Bool}

/-- Both texts go on with the same character, which is no quotation mark. -/
def Kept (s t : List Char) : Prop :=
  ∃ c s' t', ¬ IsMark c ∧ s = c :: s' ∧ t = c :: t' ∧ Renamed (opens c) s' t'

theorem offers_kept (hS : ∀ c, P c = true → ∀ s t, Renamed (opens c) s t → S s t) :
    Offers P Kept S := by
  rintro _ _ ⟨c, s, t, -, rfl, rfl, hrest⟩
  exact .inl ⟨c, s, t, rfl, rfl, fun hc => hS c hc s t hrest⟩

/-- A character that is neither a quotation mark nor, where a name may be replaced, one that a name starts
with. -/
theorem offers_renamed (hmark : ∀ c, IsMark c → P c = false)
    (hstart : free = true → ∀ c, isIdentStart c = true → P c = false)
    (hS : ∀ c, P c = true → ∀ s t, Renamed (opens c) s t → S s t) : Offers P (Renamed free) S := by
  intro s t h
  cases h with
  | nil => exact .inr ⟨by simp, by simp⟩
  | literal hm => exact .inr ⟨by simpa using hmark _ hm, by simpa using hmark _ hm⟩
  | keep _ rest => exact .inl ⟨_, _, _, rfl, rfl, fun hc => hS _ hc _ _ rest⟩
  | rename hw hw' =>
      obtain ⟨c, v, rfl, hc⟩ := exists_cons_of_isIdent hw.1
      obtain ⟨d, v', rfl, hd⟩ := exists_cons_of_isIdent hw'.1
      exact .inr ⟨by simpa using hstart rfl c hc, by simpa using hstart rfl d hd⟩

/-- A hexadecimal number. -/
def hexadecimal : Pattern :=
  .wordEdge ++ lit "0x" ++ .plus (.oneOf [.range '0' '9', .range 'A' 'F', .range 'a' 'f', .only '_']) ++
    .wordEdge

/-- A decimal number. -/
def decimal : Pattern :=
  .wordEdge ++ .oneOf [.digit] ++ .star (.oneOf [.digit, .only '_']) ++
    .opt (.char '.' ++ .plus (.oneOf [.digit])) ++
    .opt (.char 'e' ++ .opt (charOf "+-") ++ .plus (.oneOf [.digit])) ++ .wordEdge

theorem token_eq : token =
    .alt (.group 1 Script.stringShape) (.alt (.group 2 (.alt hexadecimal decimal)) (.group 3 ident)) :=
  rfl

/-- Characters behind which no name may start. -/
def IsClosed (P : Char → Bool) : Prop := ∀ c, P c = true → opens c = false

theorem IsClosed.of_isIdentChar (h : ∀ c, P c = true → isIdentChar c = true) : IsClosed P :=
  fun c hc => opens_of_isIdentChar (h c hc)

theorem IsClosed.offers_kept (h : IsClosed P) : Offers P Kept (Renamed false) :=
  Repetition.offers_kept fun c hc _ _ hrest => h c hc ▸ hrest

theorem IsClosed.offers_renamed (h : IsClosed P)
    (hstart : free = true → ∀ c, isIdentStart c = true → P c = false) :
    Offers P (Renamed free) (Renamed false) := by
  refine Repetition.offers_renamed (fun c hc => ?_) hstart fun c hc _ _ hrest => h c hc ▸ hrest
  rw [Bool.eq_false_iff]
  intro hP
  rcases hc with rfl | rfl <;> exact absurd (h _ hP) (by decide)

/-- Where no name may be replaced, such characters are consumed alike. -/
theorem IsClosed.offers_blocked (h : IsClosed P) : Offers P (Renamed false) (Renamed false) :=
  h.offers_renamed nofun

/-- A character is consumed alike where no name may be replaced, even if one may be behind it. -/
theorem offers_opening (hmark : ∀ c, IsMark c → P c = false) :
    Offers P (Renamed false) (Renamed true) :=
  Repetition.offers_renamed hmark nofun fun _ _ _ _ h => h.mono

theorem isClosed_beq {c : Char} (h : isIdentChar c = true) : IsClosed (· == c) :=
  .of_isIdentChar fun d hd => by rwa [eq_of_beq hd]

theorem isClosed_digit : IsClosed fun c => [ClassItem.digit].any (·.holds c) :=
  fun c hc => opens_of_isDigit (by simpa [ClassItem.holds] using hc)

theorem isClosed_digitOrUnderscore :
    IsClosed fun c => [ClassItem.digit, .only '_'].any (·.holds c) := by
  intro c hc
  simp only [ClassItem.holds, List.any_cons, List.any_nil, Bool.or_false, Bool.or_eq_true,
    beq_iff_eq] at hc
  rcases hc with hc | rfl
  · exact opens_of_isDigit hc
  · exact opens_of_isIdentChar rfl

theorem isClosed_hexadecimal : IsClosed fun c =>
    [ClassItem.range '0' '9', .range 'A' 'F', .range 'a' 'f', .only '_'].any (·.holds c) := by
  refine .of_isIdentChar fun c hc => ?_
  simp only [ClassItem.holds, List.any_cons, List.any_nil, Bool.or_false, Bool.or_eq_true,
    Bool.and_eq_true, decide_eq_true_eq, beq_iff_eq, isIdentChar, isAsciiAlnum, isAsciiLetter,
    isAsciiUpper, isAsciiLower, isAsciiDigit] at hc ⊢
  rcases hc with h | h | h | h
  · exact .inl (.inr h)
  · exact .inl (.inl (.inl ⟨h.1, le_trans h.2 (by decide)⟩))
  · exact .inl (.inl (.inr ⟨h.1, le_trans h.2 (by decide)⟩))
  · exact .inr h

/-- Digits are consumed alike, even where a name may be replaced. -/
theorem offers_digit : Offers (fun c => [ClassItem.digit].any (·.holds c)) (Renamed free)
    (Renamed false) :=
  isClosed_digit.offers_renamed fun _ c hc => by simp [ClassItem.holds, isDigit_of_isIdentStart hc]

theorem carries_wordEdge_kept (hends : SameEdge o.before o.before') :
    Carries o Kept Kept wordEdge.run := by
  refine carries_wordEdge hends ?_
  rintro _ _ ⟨c, s, t, -, rfl, rfl, -⟩
  rfl

theorem carries_wordEdge_renamed (hends : SameEdge o.before o.before') :
    Carries o (Renamed false) (Renamed false) wordEdge.run :=
  carries_wordEdge hends fun _ _ h => h.head_isWordChar

theorem isConsuming_token : token.isConsuming = true := rfl

theorem carries_hexadecimal (hends : SameEdge o.before o.before') :
    Carries o Kept (Renamed false) hexadecimal.run := by
  have hzero : Carries o Kept (Renamed false) (char '0').run :=
    (isClosed_beq rfl).offers_kept.carries_consume
  have hx : Carries o (Renamed false) (Renamed false) (char 'x').run :=
    (isClosed_beq rfl).offers_blocked.carries_consume
  have hdigits := isClosed_hexadecimal.offers_blocked
  exact (((carries_wordEdge_kept hends).seq (hzero.seq hx)).seq (hdigits.carries_plus hdigits)).seq
    (carries_wordEdge_renamed hends)

theorem carries_decimal (hends : SameEdge o.before o.before') :
    Carries o Kept (Renamed false) decimal.run := by
  -- a name may be replaced behind a point or a sign, but the number goes on with digits there
  have hdigits : Carries o (Renamed true) (Renamed false) (plus (.oneOf [.digit])).run :=
    offers_digit.carries_plus offers_digit
  have hpoint : Carries o (Renamed false) (Renamed true) (char '.').run := by
    refine (offers_opening fun c hc => ?_).carries_consume
    rcases hc with rfl | rfl <;> rfl
  have hsign : Carries o (Renamed false) (Renamed true) (charOf "+-").run := by
    refine (offers_opening fun c hc => ?_).carries_consume
    rcases hc with rfl | rfl <;> rfl
  have hexponent : Carries o (Renamed false) (Renamed false) (char 'e').run :=
    (isClosed_beq rfl).offers_blocked.carries_consume
  have hwhole : Carries o Kept (Renamed false) (oneOf [.digit]).run :=
    isClosed_digit.offers_kept.carries_consume
  have hmore : Carries o (Renamed false) (Renamed false) (star (.oneOf [.digit, .only '_'])).run :=
    isClosed_digitOrUnderscore.offers_blocked.carries_star
  exact (((((carries_wordEdge_kept hends).seq hwhole).seq hmore).seq
    ((hpoint.seq hdigits).opt fun _ _ h => h)).seq
    (((hexponent.seq (hsign.opt fun _ _ h => h.mono)).seq hdigits).opt fun _ _ h => h)).seq
    (carries_wordEdge_renamed hends)

/-- No literal starts at a character that is no quotation mark. -/
theorem carries_stringShape : Carries o Kept (Renamed false) Script.stringShape.run := by
  have hdelimited : ∀ mark, IsMark mark → ∀ p : Pattern,
      Carries o Kept (Renamed false) (char mark ++ p ++ char mark).run := by
    intro mark hmark p
    have hfirst : Offers (· == mark) Kept fun _ _ => False := by
      rintro _ _ ⟨c, s, t, hc, rfl, rfl, -⟩
      have hne : c ≠ mark := fun h => hc (h ▸ hmark)
      exact .inr (by simpa using hne)
    exact (hfirst.carries_consume.seq (carries_of_unreachable _)).seq (carries_of_unreachable _)
  exact .alt (hdelimited _ (.inl rfl) _) (hdelimited _ (.inr rfl) _)

theorem carries_ident : Carries o Kept (Renamed false) ident.run := by
  have hstart : IsClosed fun c =>
      [ClassItem.range 'A' 'Z', .range 'a' 'z', .only '_'].any (·.holds c) :=
    .of_isIdentChar fun c hc => isIdentChar_of_isIdentStart (by rwa [holds_identStart] at hc)
  have hpart : IsClosed fun c =>
      [ClassItem.range 'A' 'Z', .range 'a' 'z', .range '0' '9', .only '_'].any (·.holds c) :=
    .of_isIdentChar fun c hc => by rwa [holds_identPart] at hc
  exact hstart.offers_kept.carries_consume.seq hpart.offers_blocked.carries_star

/-- **Where a character stays, the search for a token goes the same way.** -/
theorem carries_token (hends : SameEdge o.before o.before') :
    Carries o Kept (Renamed false) token.run :=
  .alt carries_stringShape.group
    (.alt (.group (.alt (carries_hexadecimal hends) (carries_decimal hends))) carries_ident.group)

end lockstep

/-! ## Literals -/

section literals

variable {mark : Char} {pre w rest body : List Char} {gs : List (Nat × Span)}

/-- What is taken for a string is a literal. -/
theorem exists_of_accepts_stringShape (h : Script.stringShape.Accepts pre w rest gs) :
    ∃ mark body, IsMark mark ∧ w = mark :: (body ++ [mark]) ∧ LiteralBody mark body := by
  have hdelimited : ∀ mark, (char mark ++ Script.literalBody mark ++ char mark).Accepts pre w rest gs →
      ∃ body, w = mark :: (body ++ [mark]) ∧ LiteralBody mark body := by
    intro mark h
    rw [accepts_append_of_right fun _ _ _ _ => accepts_char] at h
    simp only [accepts_append_of_left fun _ _ _ _ => accepts_char] at h
    obtain ⟨_, _, rfl, ⟨_, body, rfl, rfl, hbody⟩, rfl⟩ := h
    exact ⟨body, rfl, (Script.literalBody_of_accepts hbody).1⟩
  rcases accepts_orElse.mp h with h | h
  · obtain ⟨body, hw, hbody⟩ := hdelimited _ h
    exact ⟨_, body, .inl rfl, hw, hbody⟩
  · obtain ⟨body, hw, hbody⟩ := hdelimited _ h
    exact ⟨_, body, .inr rfl, hw, hbody⟩

/-- A literal on one line is taken for a string. -/
theorem starts_stringShape (hmark : IsMark mark) (hbody : LiteralBody mark body) (hfeed : '\n' ∉ body) :
    Script.stringShape.Starts pre (mark :: (body ++ mark :: rest)) := by
  have hdelimited : (char mark ++ Script.literalBody mark ++ char mark).Starts pre
      (mark :: (body ++ mark :: rest)) := by
    rw [starts_append_assoc, starts_append_of_left fun _ _ _ _ => accepts_char]
    have hinside : (Script.literalBody mark).Accepts (pre ++ [mark]) body ([mark] ++ rest) [] :=
      Script.accepts_literalBody hbody hfeed
    exact ⟨[mark], body ++ mark :: rest, rfl, rfl, body ++ [mark], rest, _, by simp,
      body, [mark], _, _, rfl, rfl, hinside, accepts_char.mpr ⟨rfl, rfl⟩⟩
  rcases hmark with rfl | rfl
  · exact starts_alt.mpr (.inl hdelimited)
  · exact starts_alt.mpr (.inr hdelimited)

/-- At a literal, the token is the literal. -/
theorem matchAt?_token_literal (hmark : IsMark mark) (hbody : LiteralBody mark body)
    (hfeed : '\n' ∉ body) (pre rest : List Char) :
    ∃ gs, token.matchAt? (.between pre (mark :: (body ++ [mark]) ++ rest)) =
      some (.of pre (mark :: (body ++ [mark])) rest gs) ∧ (gs.lookup 1).isSome = true := by
  have hstarts : (group 1 Script.stringShape).Starts pre (mark :: (body ++ [mark]) ++ rest) := by
    have hshape : Script.stringShape.Starts pre (mark :: (body ++ mark :: rest)) :=
      starts_stringShape hmark hbody hfeed
    obtain ⟨w, rest', gs, hw, hacc⟩ := hshape
    exact ⟨w, rest', _, by simpa using hw, accepts_group.mpr ⟨gs, hacc, rfl⟩⟩
  obtain ⟨m, hm⟩ := Option.isSome_iff_exists.mp (matchAt?_isSome_iff.mpr hstarts)
  obtain ⟨w, rest', gs, hw, hacc, rfl⟩ := exists_accepts_of_matchAt? hm
  obtain ⟨g, hshape, rfl⟩ := accepts_group.mp hacc
  obtain ⟨mark', body', -, rfl, hbody'⟩ := exists_of_accepts_stringShape hshape
  -- a literal ends in one way only
  rw [List.cons_append, List.cons_append, List.append_assoc, List.append_assoc] at hw
  obtain ⟨rfl, hsame⟩ := List.cons.inj hw
  obtain rfl := hbody.unique hmark hbody' hsame
  obtain rfl := List.append_cancel_left (List.append_cancel_left hsame)
  exact ⟨_, by rw [token_eq, matchAt?_alt, hm, Option.some_or], rfl⟩

end literals

/-! ## Names -/

section names

variable {c : Char} {pre w rest : List Char} {gs : List (Nat × Span)}

theorem exists_isDigit_of_accepts_number (h : (alt hexadecimal decimal).Accepts pre w rest gs) :
    ∃ c v, w = c :: v ∧ isDigit c = true := by
  rcases h with h | h
  · simp only [hexadecimal, accepts_append_assoc, accepts_wordEdge_append] at h
    obtain ⟨-, u, v, gu, gv, rfl, rfl, hzero, -⟩ := h
    obtain ⟨rfl, -⟩ := accepts_lit.mp hzero
    exact ⟨'0', 'x' :: v, rfl, rfl⟩
  · simp only [decimal, accepts_append_assoc, accepts_wordEdge_append] at h
    obtain ⟨-, u, v, gu, gv, rfl, rfl, ⟨c, rfl, hc, -⟩, -⟩ := h
    exact ⟨c, v, rfl, by simpa [ClassItem.holds] using hc⟩

/-- At a name, the token is the name. -/
theorem matchAt?_token_name (hw : isIdent w = true) (hrest : ∀ c ∈ rest.head?, isIdentChar c = false) :
    token.matchAt? (.between pre (w ++ rest)) = some (.of pre w rest [(3, ⟨width pre, w⟩)]) := by
  obtain ⟨c, v, hcons, hc⟩ := exists_cons_of_isIdent hw
  have hstring : (group 1 Script.stringShape).matchAt? (.between pre (w ++ rest)) = none := by
    rw [matchAt?_eq_none_iff]
    rintro ⟨u, rest', gs, hu, hacc⟩
    obtain ⟨g, hshape, rfl⟩ := accepts_group.mp hacc
    obtain ⟨mark, body, hmark, rfl, -⟩ := exists_of_accepts_stringShape hshape
    rw [hcons] at hu
    obtain ⟨rfl, -⟩ := List.cons.inj hu
    exact not_isMark_of_isIdentChar (isIdentChar_of_isIdentStart hc) hmark
  have hnumber : (group 2 (alt hexadecimal decimal)).matchAt? (.between pre (w ++ rest)) = none := by
    rw [matchAt?_eq_none_iff]
    rintro ⟨u, rest', gs, hu, hacc⟩
    obtain ⟨g, hshape, rfl⟩ := accepts_group.mp hacc
    obtain ⟨d, v', rfl, hd⟩ := exists_isDigit_of_accepts_number hshape
    rw [hcons] at hu
    obtain ⟨rfl, -⟩ := List.cons.inj hu
    rw [isDigit_of_isIdentStart hc] at hd
    cases hd
  rw [token_eq, matchAt?_alt, hstring, matchAt?_alt, hnumber, matchAt?_ident hw hrest]
  rfl

end names

/-! ## Quotation marks without a literal -/

section closing

variable {mark c : Char} {q : Quoting} {s t u w : List Char}

/-- A reader in state `q` gets outside of literals somewhere in the text. -/
def Closes (q : Quoting) (s : List Char) : Prop := ∃ u v, s = u ++ v ∧ q.read u = .outside

/-- The reader is inside of a literal that `mark` opened. -/
def IsWithin (mark : Char) (q : Quoting) : Prop := q = .inside mark ∨ q = .escaped mark

theorem closes_outside (s : List Char) : Closes .outside s := ⟨[], s, rfl, rfl⟩

theorem IsWithin.next_eq (h : IsWithin mark q) (c : Char) :
    q.next c = .outside ∨ IsWithin mark (q.next c) := by
  rcases h with rfl | rfl
  · rw [next]
    split_ifs
    · exact .inr (.inr rfl)
    · exact .inl rfl
    · exact .inr (.inl rfl)
  · exact .inr (.inl rfl)

/-- Within a literal, the reader gets outside only behind some character. -/
theorem IsWithin.closes_cons_iff (h : IsWithin mark q) : Closes q (c :: s) ↔ Closes (q.next c) s := by
  constructor
  · rintro ⟨u, v, hu, hread⟩
    rcases List.cons_eq_append_iff.mp hu with ⟨rfl, -⟩ | ⟨u, rfl, rfl⟩
    · rcases h with rfl | rfl <;> cases hread
    · exact ⟨u, v, rfl, hread⟩
  · rintro ⟨u, v, rfl, hread⟩
    exact ⟨c :: u, v, rfl, hread⟩

/-- The same text in front of both. -/
theorem closes_append (h : ∀ q, IsWithin mark q → Closes q t → Closes q s) (hq : IsWithin mark q) :
    Closes q (u ++ t) → Closes q (u ++ s) := by
  induction u generalizing q with
  | nil => exact h q hq
  | cons c u ih =>
      rw [List.cons_append, List.cons_append, hq.closes_cons_iff, hq.closes_cons_iff]
      rcases hq.next_eq c with hnext | hnext
      · rw [hnext]
        exact fun _ => closes_outside _
      · exact ih hnext

/-- A name within a literal is passed over, whichever it is. -/
theorem IsWithin.closes_name_iff (hmark : IsMark mark) (hq : IsWithin mark q) (hw : isIdent w = true) :
    Closes q (w ++ s) ↔ Closes (.inside mark) s := by
  have hinside : ∀ v : List Char, (∀ c ∈ v, isIdentChar c = true) →
      (Closes (.inside mark) (v ++ s) ↔ Closes (.inside mark) s) := by
    intro v hv
    induction v with
    | nil => rfl
    | cons c v ih =>
        obtain ⟨hc, hv⟩ := List.forall_mem_cons.mp hv
        have hne : c ≠ mark := by
          rintro rfl
          exact not_isMark_of_isIdentChar hc hmark
        have hslash : c ≠ '\\' := by
          rintro rfl
          exact absurd hc (by decide)
        have hnext : next (.inside mark) c = .inside mark := by simp [next, hne, hslash]
        rw [List.cons_append, IsWithin.closes_cons_iff (.inl rfl), hnext, ih hv]
  have hall := isIdentChar_of_isIdent hw
  rcases hq with rfl | rfl
  · exact hinside w hall
  · obtain ⟨c, v, rfl, -⟩ := exists_cons_of_isIdent hw
    rw [List.cons_append, IsWithin.closes_cons_iff (.inr rfl)]
    exact hinside v fun d hd => hall d (List.mem_cons_of_mem c hd)

/-- A literal ends in the first text if it does so in the second one. -/
theorem Renamed.closes {free : Bool} (hmark : IsMark mark) (h : Renamed free s t) (hq : IsWithin mark q) :
    Closes q t → Closes q s := by
  induction h generalizing q with
  | nil => exact fun h => h
  | @literal _ m body s t _ _ _ ih =>
      have hsame := closes_append (u := m :: (body ++ [m])) (fun q hq => @ih q hq) hq
      simpa using hsame
  | @keep _ c s t _ _ ih => exact closes_append (u := [c]) (fun q hq => @ih q hq) hq
  | rename hw hw' _ _ ih =>
      rw [hq.closes_name_iff hmark hw.1, hq.closes_name_iff hmark hw'.1]
      exact ih (.inl rfl)

/-- A literal starts at a quotation mark if the reader gets outside again. -/
theorem startsLiteral_iff (hmark : IsMark mark) :
    StartsLiteral (mark :: s) ↔ Closes (.inside mark) s := by
  constructor
  · rintro ⟨m, body, rest, -, hbody, heq⟩
    obtain ⟨rfl, rfl⟩ := List.cons.inj heq
    refine ⟨body ++ [mark], rest, by simp, ?_⟩
    rw [read_append, hbody.read_eq]
    simp [next, hmark.ne_backslash]
  · rintro ⟨u, v, rfl, hread⟩
    obtain ⟨body, rest, rfl, hbody⟩ := exists_literalBody hread
    exact ⟨mark, body, rest ++ v, hmark, hbody, by simp⟩

end closing

/-- What starts with a token that is no name and no number starts with a literal. -/
theorem matchAt?_token_mark {mark : Char} {pre s : List Char} (hmark : IsMark mark)
    (hs : ¬ StartsLiteral (mark :: s)) : token.matchAt? (.between pre (mark :: s)) = none := by
  rw [matchAt?_eq_none_iff, token_eq]
  rintro ⟨u, rest, gs, hu, hstring | hnumber | hname⟩
  · obtain ⟨g, hshape, -⟩ := accepts_group.mp hstring
    obtain ⟨m, body, hm, rfl, hbody⟩ := exists_of_accepts_stringShape hshape
    exact hs ⟨m, body, rest, hm, hbody, by simpa using hu⟩
  · obtain ⟨g, hshape, -⟩ := accepts_group.mp hnumber
    obtain ⟨c, v, rfl, hc⟩ := exists_isDigit_of_accepts_number hshape
    obtain ⟨rfl, -⟩ := List.cons.inj hu
    rcases hmark with rfl | rfl <;> exact absurd hc (by decide)
  · obtain ⟨g, hshape, -⟩ := accepts_group.mp hname
    obtain ⟨c, v, rfl, hc⟩ := exists_cons_of_isIdent (accepts_ident.mp hshape).1
    obtain ⟨rfl, -⟩ := List.cons.inj hu
    exact not_isMark_of_isIdentChar (isIdentChar_of_isIdentStart hc) hmark

/-! ## Normal forms -/

section normal

variable {pre w rest : List Char} {gs : List (Nat × Span)}

theorem normalToken_of_literal (h : (gs.lookup 1).isSome = true) :
    normalToken (.of pre w rest gs) = "\"STR\"".toList := if_pos h

theorem normalToken_of_name {span : Span} (hw : IsName w) :
    normalToken (.of pre w rest [(3, span)]) = "VAR".toList := by
  have heq : normalToken (.of pre w rest [(3, span)]) =
      if keywords.contains (String.ofList w) then w else "VAR".toList := rfl
  rw [heq, hw.2]
  rfl

/-- Matches of the same text and of the same groups stand for the same. -/
theorem normalToken_eq {o : Places} {R : Ahead} {m m' : Match} (h : MatchAlike o R m m') :
    normalToken m = normalToken m' := by
  have hwhole : m.whole.chars = m'.whole.chars := by
    obtain ⟨-, -, -, -⟩ := h
    rfl
  rw [normalToken, normalToken, h.isSome_group? 1, h.isSome_group? 2, Span.text, Span.text, hwhole]

theorem normalToken_ne_nil (m : Match) : normalToken m ≠ [] := by
  simp only [normalToken]
  split_ifs with hstring hnumber hword
  · decide
  · decide
  · intro hnil
    rw [Span.text, hnil] at hword
    exact absurd hword (by decide)
  · decide

end normal

section steps

variable {free : Bool} {c mark : Char} {pre pre' s t : List Char}

/-- How the two texts go on: with tokens that stand for the same, or with a character that starts no
token in either. -/
inductive NextAlike (pre pre' : List Char) : List Char → List Char → Prop
  | done : NextAlike pre pre' [] []
  | skip {free : Bool} {c : Char} {s t : List Char}
      (no_token : token.matchAt? (.between pre (c :: s)) = none)
      (no_token' : token.matchAt? (.between pre' (c :: t)) = none) (rest : Renamed free s t) :
      NextAlike pre pre' (c :: s) (c :: t)
  | token {free : Bool} {w w' s t : List Char} {gs gs' : List (Nat × Span)} (hw : w ≠ []) (hw' : w' ≠ [])
      (found : token.matchAt? (.between pre (w ++ s)) = some (.of pre w s gs))
      (found' : token.matchAt? (.between pre' (w' ++ t)) = some (.of pre' w' t gs'))
      (same : normalToken (.of pre w s gs) = normalToken (.of pre' w' t gs'))
      (ends : SameEdge (pre ++ w) (pre' ++ w')) (rest : Renamed free s t) :
      NextAlike pre pre' (w ++ s) (w' ++ t)

/-- A literal is the same in both. -/
theorem nextAlike_literal {body : List Char} (hmark : IsMark mark) (hbody : LiteralBody mark body)
    (hfeed : '\n' ∉ body) (hends : SameEdge pre pre') (hrest : Renamed true s t) :
    NextAlike pre pre' (mark :: (body ++ mark :: s)) (mark :: (body ++ mark :: t)) := by
  have hcut : ∀ u : List Char, mark :: (body ++ mark :: u) = mark :: (body ++ [mark]) ++ u := by simp
  obtain ⟨gs, hfound, hgroup⟩ := matchAt?_token_literal hmark hbody hfeed pre s
  obtain ⟨gs', hfound', hgroup'⟩ := matchAt?_token_literal hmark hbody hfeed pre' t
  rw [hcut s, hcut t]
  refine .token (List.cons_ne_nil _ _) (List.cons_ne_nil _ _) hfound hfound' ?_ (hends.append _) hrest
  rw [normalToken_of_literal hgroup, normalToken_of_literal hgroup']

/-- A quotation mark that opens no literal does so in neither. -/
theorem nextAlike_mark (hmark : IsMark c) (no_literal : ¬ StartsLiteral (c :: s))
    (hrest : Renamed free s t) : NextAlike pre pre' (c :: s) (c :: t) := by
  have no_literal' : ¬ StartsLiteral (c :: t) := by
    rw [startsLiteral_iff hmark]
    intro hcloses
    exact no_literal ((startsLiteral_iff hmark).mpr (hrest.closes hmark (.inl rfl) hcloses))
  exact .skip (matchAt?_token_mark hmark no_literal) (matchAt?_token_mark hmark no_literal') hrest

/-- At another character that stays, there is the same token in both. -/
theorem nextAlike_kept (hmark : ¬ IsMark c) (hends : SameEdge pre pre')
    (hrest : Renamed (opens c) s t) : NextAlike pre pre' (c :: s) (c :: t) := by
  have hkept : Kept (c :: s) (c :: t) := ⟨c, s, t, hmark, rfl, rfl, hrest⟩
  have hfound := (carries_token (o := ⟨pre, c :: s, pre', c :: t⟩) hends).matchAt? hkept
  revert hfound
  generalize hm : token.matchAt? (.between pre (c :: s)) = m
  generalize hm' : token.matchAt? (.between pre' (c :: t)) = m'
  rintro (hsame | _)
  · have hstands := normalToken_eq hsame
    cases hsame with
    | @of w rest rest' gs gs' hafter hafter' hindices hahead =>
        simp only at hafter hafter' hm hm' hstands
        rw [hafter] at hm ⊢
        rw [hafter'] at hm' ⊢
        have hw : w ≠ [] := by
          obtain ⟨u, rest'', g, -, hacc, heq⟩ := exists_accepts_of_matchAt? hm
          have hwhole := congrArg Match.whole heq
          simp only [Match.of_whole, Span.mk.injEq, true_and] at hwhole
          rw [hwhole]
          exact consumes_of_isConsuming isConsuming_token _ _ _ _ hacc
        exact .token hw hw hm hm' hstands (hends.append w) hahead
  · exact .skip hm hm' hrest

/-- Names end alike, whichever they are. -/
theorem sameEdge_name {w w' : List Char} (hw : isIdent w = true) (hw' : isIdent w' = true) :
    SameEdge (pre ++ w) (pre' ++ w') := by
  have hlast : ∀ {pre w : List Char}, isIdent w = true →
      (pre ++ w).getLast?.elim false isWordChar = true := by
    intro pre w hw
    have hne := ne_nil_of_isIdent hw
    rw [List.getLast?_append_of_ne_nil _ hne, List.getLast?_eq_some_getLast hne, Option.elim_some]
    exact isWordChar_of_isIdentChar (isIdentChar_of_isIdent hw _ (List.getLast_mem hne))
  rw [SameEdge, hlast hw, hlast hw']

/-- **Renamed code goes on alike.** -/
theorem Renamed.nextAlike (h : Renamed free s t) (hfeed : '\n' ∉ s) (hends : SameEdge pre pre') :
    NextAlike pre pre' s t := by
  cases h with
  | nil => exact .done
  | literal hmark hbody hrest =>
      simp only [List.mem_append, List.mem_cons, not_or] at hfeed
      exact nextAlike_literal hmark hbody hfeed.2.1 hends hrest
  | @keep _ c s t no_literal hrest =>
      by_cases hmark : IsMark c
      · exact nextAlike_mark hmark no_literal hrest
      · exact nextAlike_kept hmark hends hrest
  | rename hw hw' whole hrest =>
      refine .token (ne_nil_of_isIdent hw.1) (ne_nil_of_isIdent hw'.1) (matchAt?_token_name hw.1 whole)
        (matchAt?_token_name hw'.1 (hrest.head_eq ▸ whole)) ?_ (sameEdge_name hw.1 hw'.1) hrest
      rw [normalToken_of_name hw, normalToken_of_name hw']

/-- **Renaming does not change the normal form.** -/
theorem Renamed.eq_of_replaced {out out' : List Char} (h : Renamed free s t) (hfeed : '\n' ∉ s)
    (hends : SameEdge pre pre') (hs : Replaced token normalToken pre s out)
    (ht : Replaced token normalToken pre' t out') : out = out' := by
  induction hn : s.length using Nat.strong_induction_on generalizing free s t pre pre' out out' with
  | _ n ih =>
      subst hn
      cases h.nextAlike hfeed hends with
      | done => rw [hs.eq_nil, ht.eq_nil]
      | @skip _ c s t no_token no_token' hrest =>
          obtain ⟨out, rfl, hlater⟩ := hs.exists_of_none no_token
          obtain ⟨out', rfl, hlater'⟩ := ht.exists_of_none no_token'
          rw [ih _ (Nat.lt_succ_self _) hrest (fun hmem => hfeed (List.mem_cons_of_mem c hmem))
            (hends.append [c]) hlater hlater' rfl]
      | @token _ w w' s t _ _ hw hw' found found' same ends hrest =>
          obtain ⟨out, rfl, hlater⟩ := hs.exists_of_some hw found
          obtain ⟨out', rfl, hlater'⟩ := ht.exists_of_some hw' found'
          rw [same, ih _ (by simpa using List.length_pos_of_ne_nil hw) hrest
            (fun hmem => hfeed (List.mem_append_right w hmem)) ends hlater hlater' rfl]

end steps

/-! ## Lines -/

/-- The code of the second line is that of the first one with names replaced; what stands around it and the
comments may differ. -/
def IsCopy (l l' : List Char) : Prop := Renamed true (trim (Line.code l)) (trim (Line.code l'))

/-- **A copy of a line has its normal form.** -/
theorem IsCopy.normalLine_eq {l l' : List Char} (h : IsCopy l l') (hfeed : '\n' ∉ l) :
    normalLine l = normalLine l' := by
  obtain ⟨comment, hcode, -⟩ := Line.code_spec l
  have hcore : '\n' ∉ trim (Line.code l) := by
    intro hmem
    rw [hcode] at hfeed
    exact hfeed (List.mem_append_left comment (mem_of_mem_trim hmem))
  exact Renamed.eq_of_replaced h hcore (.refl []) (replaced_replaceAll isConsuming_token _)
    (replaced_replaceAll isConsuming_token _)

/-- Nothing is left only of a line without code. -/
theorem normalLine_eq_nil_iff {l : List Char} : normalLine l = [] ↔ trim (Line.code l) = [] :=
  (replaced_replaceAll (f := normalToken) isConsuming_token _).eq_nil_iff normalToken_ne_nil

end GodotLint.Check.Repetition
