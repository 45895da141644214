import GodotLint.Proofs.Line.Quoting
import GodotLint.Proofs.Pattern.Parts
import GodotLint.Proofs.Pattern.Scan
import GodotLint.Proofs.Text.Bytes
import GodotLint.Script.Access

/-!
# How accesses are written

The two written forms of an access by a literal key as data: `Subscript` for `name["key"]` and
`Call` for the beginning `name.get("key"` of a call. Each carries the proofs that it is well
formed, so its text can be read back. The patterns of the access reader spell exactly these texts
(`spells_bracketAccess`, `spells_callAccess`).
-/

namespace GodotLint.Script

open Text Pattern

/-! ## Identifier paths -/

/-- Identifiers joined by dots, read from the start of an identifier or from inside one. -/
def isPathFrom : (inside : Bool) → List Char → Bool
  | inside, [] => inside
  | false, c :: rest => isIdentStart c && isPathFrom true rest
  | true, c :: rest =>
    if c == '.' then isPathFrom false rest else isIdentChar c && isPathFrom true rest

/-- Identifiers joined by dots. -/
def isPath (s : List Char) : Bool := isPathFrom false s

/-- Characters that stand in identifier paths. -/
def isPathChar (c : Char) : Bool := isIdentChar c || c == '.'

theorem isPathChar_of_isIdentChar {c : Char} (h : isIdentChar c = true) : isPathChar c = true := by
  simp [isPathChar, h]

theorem ne_dot_of_isIdentChar {c : Char} (h : isIdentChar c = true) : c ≠ '.' := by
  rintro rfl
  revert h
  decide

theorem isPathFrom_true_cons {c : Char} (h : isIdentChar c = true) (s : List Char) :
    isPathFrom true (c :: s) = isPathFrom true s := by
  simp [isPathFrom, ne_dot_of_isIdentChar h, h]

theorem isPathFrom_true_append {s t : List Char} (h : ∀ c ∈ s, isIdentChar c = true) :
    isPathFrom true (s ++ t) = isPathFrom true t := by
  induction s with
  | nil => rfl
  | cons c s ih =>
      rw [List.cons_append, isPathFrom_true_cons (h c (by simp))]
      exact ih fun d hd => h d (by simp [hd])

theorem mem_isPathFrom {inside : Bool} {s : List Char} (h : isPathFrom inside s = true) :
    ∀ c ∈ s, isPathChar c = true := by
  induction s generalizing inside with
  | nil => simp
  | cons c s ih =>
      intro d hd
      cases inside with
      | false =>
          simp only [isPathFrom, Bool.and_eq_true] at h
          rcases List.mem_cons.mp hd with rfl | hd
          · exact isPathChar_of_isIdentChar (isIdentChar_of_isIdentStart h.1)
          · exact ih h.2 d hd
      | true =>
          simp only [isPathFrom] at h
          split at h
          · rename_i hc
            rcases List.mem_cons.mp hd with rfl | hd
            · simp [isPathChar, hc]
            · exact ih h d hd
          · rw [Bool.and_eq_true] at h
            rcases List.mem_cons.mp hd with rfl | hd
            · exact isPathChar_of_isIdentChar h.1
            · exact ih h.2 d hd

/-- A path starts with the start of an identifier. -/
theorem exists_cons_of_isPath {s : List Char} (h : isPath s = true) :
    ∃ c r, s = c :: r ∧ isIdentStart c = true ∧ isPathFrom true r = true := by
  cases s with
  | nil => cases h
  | cons c r =>
      simp only [isPath, isPathFrom, Bool.and_eq_true] at h
      exact ⟨c, r, rfl, h.1, h.2⟩

/-- What is a path from the start of an identifier continues one that has begun. -/
theorem isPathFrom_of_isPath {s : List Char} (h : isPath s = true) (inside : Bool) :
    isPathFrom inside s = true := by
  cases inside with
  | false => exact h
  | true =>
      obtain ⟨c, r, rfl, hc, hr⟩ := exists_cons_of_isPath h
      rw [isPathFrom_true_cons (isIdentChar_of_isIdentStart hc)]
      exact hr

/-- The beginning of a path followed by a path is a path. -/
theorem isPathFrom_append {s t u : List Char} {inside : Bool}
    (h : isPathFrom inside (s ++ u) = true) (ht : isPath t = true) :
    isPathFrom inside (s ++ t) = true := by
  induction s generalizing inside with
  | nil => exact isPathFrom_of_isPath ht inside
  | cons c s ih =>
      cases inside with
      | false =>
          simp only [List.cons_append, isPathFrom, Bool.and_eq_true] at h ⊢
          exact ⟨h.1, ih h.2⟩
      | true =>
          simp only [List.cons_append, isPathFrom] at h ⊢
          split_ifs at h ⊢
          · exact ih h
          · rw [Bool.and_eq_true] at h ⊢
            exact ⟨h.1, ih h.2⟩

/-! ## Quoted keys -/

/-- A key between quotation marks: not empty, and without its mark and backslashes. -/
structure QuotedKey where
  mark : Char
  key : List Char
  isMark : Quoting.IsMark mark
  key_ne_nil : key ≠ []
  clean : ∀ c ∈ key, c ≠ mark ∧ c ≠ '\\'

namespace QuotedKey

/-- The key as it is written. -/
def text (k : QuotedKey) : List Char := k.mark :: (k.key ++ [k.mark])

/-- The group that a pattern remembers, by the mark. -/
def group (double single offset : Nat) (k : QuotedKey) : Nat × Span :=
  (if k.mark = '"' then double else single, ⟨offset + k.mark.utf8Size, k.key⟩)

@[ext] theorem ext {k l : QuotedKey} (hm : k.mark = l.mark) (hk : k.key = l.key) : k = l := by
  cases k
  cases l
  cases hm
  cases hk
  rfl

theorem unambiguous {k l : QuotedKey} {u v : List Char} (h : k.text ++ u = l.text ++ v) :
    k = l ∧ u = v := by
  simp only [text, List.cons_append, List.append_assoc, List.cons.injEq, List.nil_append] at h
  obtain ⟨hmark, h⟩ := h
  have hl : ∀ c ∈ l.key, c ≠ k.mark := fun c hc => hmark ▸ (l.clean c hc).1
  obtain ⟨hkey, hrest⟩ := append_inj_of_stop (P := (· ≠ k.mark)) (fun c hc => (k.clean c hc).1) hl
    (stopsAt_cons.mpr (by simp)) (stopsAt_cons.mpr (by simp [hmark])) h
  exact ⟨ext hmark hkey, List.cons.inj hrest |>.2⟩

/-- Read from outside, a quoted key is one literal. -/
theorem read_text (k : QuotedKey) : Quoting.read .outside k.text = .outside :=
  Quoting.read_literal k.isMark k.clean

end QuotedKey

/-! ## Accesses by brackets -/

/-- An access `name["key"]`, with the blanks that may stand in it. -/
structure Subscript where
  receiver : List Char
  /-- The blanks before the opening bracket. -/
  gap : List Char
  /-- The blanks after the opening bracket. -/
  opening : List Char
  quoted : QuotedKey
  /-- The blanks before the closing bracket. -/
  closing : List Char
  isPath : isPath receiver = true
  gap_blank : ∀ c ∈ gap, isBlank c = true
  opening_blank : ∀ c ∈ opening, isBlank c = true
  closing_blank : ∀ c ∈ closing, isBlank c = true

namespace Subscript

/-- What stands between the receiver and the key, and after the key. -/
def tail (a : Subscript) : List Char :=
  a.gap ++ '[' :: (a.opening ++ a.quoted.text ++ a.closing ++ [']'])

/-- The access as it is written. -/
def text (a : Subscript) : List Char := a.receiver ++ a.tail

/-- The groups that the reader remembers. -/
def groups (offset : Nat) (a : Subscript) : List (Nat × Span) :=
  [a.quoted.group 2 3 (offset + width (a.receiver ++ a.gap ++ '[' :: a.opening)),
    (1, ⟨offset, a.receiver⟩)]

theorem text_ne_nil (a : Subscript) : a.text ≠ [] := by
  simp [text, tail]

end Subscript

/-- A blank is no character of a path. -/
theorem isPathChar_not_blank {c : Char} (h : isPathChar c = true) : isBlank c = false := by
  rw [isPathChar, Bool.or_eq_true, beq_iff_eq] at h
  rcases h with h | rfl
  · exact isBlank_eq_false_of_isIdentChar h
  · decide

/-- Blanks or a bracket follow the path. -/
theorem Subscript.exists_tail_eq (a : Subscript) :
    ∃ c r, a.tail = c :: r ∧ (isBlank c = true ∨ c = '[') := by
  rw [tail]
  cases hgap : a.gap with
  | nil => exact ⟨_, _, rfl, .inr rfl⟩
  | cons c gap => exact ⟨c, _, rfl, .inl (a.gap_blank c (by simp [hgap]))⟩

/-- Where blanks or a bracket follow a path, the path has ended. -/
theorem Subscript.stopsAt_tail (a : Subscript) (u : List Char) :
    StopsAt (fun c => isPathChar c = true) (a.tail ++ u) := by
  obtain ⟨c, r, htail, hc⟩ := a.exists_tail_eq
  rw [htail, List.cons_append, stopsAt_cons]
  intro hpath
  rcases hc with hc | rfl
  · rw [isPathChar_not_blank hpath] at hc
    cases hc
  · exact absurd hpath (by decide)

theorem Subscript.unambiguous {a b : Subscript} {u v : List Char}
    (h : a.text ++ u = b.text ++ v) : a = b := by
  rw [text, text, List.append_assoc, List.append_assoc] at h
  obtain ⟨hrecv, h⟩ := append_inj_of_stop (mem_isPathFrom a.isPath) (mem_isPathFrom b.isPath)
    (a.stopsAt_tail u) (b.stopsAt_tail v) h
  simp only [tail, List.append_assoc, List.cons_append] at h
  have stops : ∀ (c : Char) (s : List Char), isBlank c = false →
      StopsAt (fun c => isBlank c = true) (c :: s) := fun c s hc =>
    stopsAt_cons.mpr (by simp [hc])
  obtain ⟨hgap, h⟩ := append_inj_of_stop a.gap_blank b.gap_blank
    (stops _ _ (by decide)) (stops _ _ (by decide)) h
  obtain ⟨hopening, h⟩ := append_inj_of_stop a.opening_blank b.opening_blank
    (stops _ _ (a.quoted.isMark.not_blank)) (stops _ _ (b.quoted.isMark.not_blank))
    (List.cons.inj h).2
  obtain ⟨hquoted, h⟩ := QuotedKey.unambiguous h
  obtain ⟨hclosing, -⟩ := append_inj_of_stop a.closing_blank b.closing_blank
    (stops _ _ (by decide)) (stops _ _ (by decide)) h
  cases a
  cases b
  simp_all

/-- A subscript is read back from the place where it ends, but for the beginning of its path. -/
theorem Subscript.unambiguous_right {a b : Subscript} {p q : List Char}
    (h : p ++ a.text = q ++ b.text) : p ++ a.receiver = q ++ b.receiver ∧ a.tail = b.tail := by
  have stops : ∀ (P : Char → Prop) (c : Char) (s : List Char), ¬ P c →
      StopsAt P (s ++ [c]).reverse := fun P c s hc => by
    simpa using stopsAt_cons.mpr hc
  have notBlank : ∀ {c : Char}, isBlank c = false → ¬ isBlank c = true := by simp
  have name : ∀ (e : Subscript) (s : List Char),
      StopsAt (fun c => isBlank c = true) (s ++ e.receiver).reverse := by
    intro e s
    obtain ⟨c, r, hreceiver, -⟩ := exists_cons_of_isPath e.isPath
    obtain ⟨t, d, hlast⟩ := (List.eq_nil_or_concat' e.receiver).resolve_left (by simp [hreceiver])
    have hd : isPathChar d = true := mem_isPathFrom e.isPath d (by simp [hlast])
    rw [hlast, ← List.append_assoc]
    exact stops _ _ _ (notBlank (isPathChar_not_blank hd))
  have assoc : ∀ (e : Subscript) (s : List Char), s ++ e.text =
      s ++ e.receiver ++ e.gap ++ ['['] ++ e.opening ++ [e.quoted.mark] ++ e.quoted.key ++
        [e.quoted.mark] ++ e.closing ++ [']'] := by
    intro e s
    simp [text, tail, QuotedKey.text]
  rw [assoc, assoc] at h
  obtain ⟨hclosing, h⟩ := append_inj_of_stop_right a.closing_blank b.closing_blank
    (stops _ _ _ (notBlank a.quoted.isMark.not_blank))
    (stops _ _ _ (notBlank b.quoted.isMark.not_blank)) (List.append_cancel_right h)
  obtain ⟨h, hmark⟩ := List.append_inj' h rfl
  rw [List.singleton_inj] at hmark
  obtain ⟨hkey, h⟩ := append_inj_of_stop_right (P := (· ≠ a.quoted.mark))
    (fun c hc => (a.quoted.clean c hc).1) (fun c hc => hmark ▸ (b.quoted.clean c hc).1)
    (stops _ _ _ (by simp)) (stops _ _ _ (by simp [hmark])) h
  obtain ⟨hopening, h⟩ := append_inj_of_stop_right a.opening_blank b.opening_blank
    (stops _ _ _ (notBlank (by decide))) (stops _ _ _ (notBlank (by decide)))
    (List.append_inj' h rfl).1
  obtain ⟨hgap, h⟩ := append_inj_of_stop_right a.gap_blank b.gap_blank (name a p) (name b q)
    (List.append_cancel_right h)
  refine ⟨h, ?_⟩
  simp [tail, QuotedKey.text, hgap, hopening, hmark, hkey, hclosing]

/-! ## Calls -/

/-- The beginning `name.get("key"` or `name.has("key"` of a call. -/
structure Call where
  receiver : List Char
  method : List Char
  /-- The blanks after the opening parenthesis. -/
  opening : List Char
  quoted : QuotedKey
  isPath : isPath receiver = true
  isMethod : method = ['g', 'e', 't'] ∨ method = ['h', 'a', 's']
  opening_blank : ∀ c ∈ opening, isBlank c = true

namespace Call

/-- What stands after the receiver. -/
def tail (c : Call) : List Char := '.' :: (c.method ++ '(' :: (c.opening ++ c.quoted.text))

/-- The beginning of the call as it is written. -/
def text (c : Call) : List Char := c.receiver ++ c.tail

/-- The groups that the reader remembers. -/
def groups (offset : Nat) (c : Call) : List (Nat × Span) :=
  [c.quoted.group 3 4 (offset + width (c.receiver ++ '.' :: (c.method ++ '(' :: c.opening))),
    (2, ⟨offset + width (c.receiver ++ ['.']), c.method⟩), (1, ⟨offset, c.receiver⟩)]

theorem text_ne_nil (c : Call) : c.text ≠ [] := by
  simp [text, tail]

theorem length_method (c : Call) : c.method.length = 3 := by
  rcases c.isMethod with h | h <;> simp [h]

/-- The receiver and the method together are made of the characters of paths. -/
theorem mem_receiver_method (c : Call) : ∀ x ∈ c.receiver ++ '.' :: c.method,
    isPathChar x = true := by
  intro x hx
  rcases List.mem_append.mp hx with hx | hx
  · exact mem_isPathFrom c.isPath x hx
  · rcases c.isMethod with h | h <;> rw [h] at hx <;>
      simp only [List.mem_cons, List.not_mem_nil, or_false] at hx <;>
      rcases hx with rfl | rfl | rfl | rfl <;> decide

theorem unambiguous {c d : Call} {u v : List Char} (h : c.text ++ u = d.text ++ v) : c = d := by
  have paren : ∀ s, StopsAt (fun c => isPathChar c = true) ('(' :: s) := fun s =>
    stopsAt_cons.mpr (by decide)
  have stops : ∀ (c : Char) (s : List Char), isBlank c = false →
      StopsAt (fun c => isBlank c = true) (c :: s) := fun c s hc =>
    stopsAt_cons.mpr (by simp [hc])
  have assoc : ∀ (e : Call) (s : List Char), e.text ++ s =
      (e.receiver ++ '.' :: e.method) ++ '(' :: (e.opening ++ (e.quoted.text ++ s)) := by
    intro e s
    simp [text, tail]
  rw [assoc, assoc] at h
  obtain ⟨hname, h⟩ := append_inj_of_stop c.mem_receiver_method d.mem_receiver_method
    (paren _) (paren _) h
  obtain ⟨hreceiver, hmethod⟩ := List.append_inj' hname (by simp [length_method])
  obtain ⟨hopening, h⟩ := append_inj_of_stop c.opening_blank d.opening_blank
    (stops _ _ (c.quoted.isMark.not_blank)) (stops _ _ (d.quoted.isMark.not_blank))
    (List.cons.inj h).2
  obtain ⟨hquoted, -⟩ := QuotedKey.unambiguous h
  cases c
  cases d
  simp_all

end Call

/-! ## The patterns -/

section patterns

variable {pre w post : List Char} {gs : List (Nat × Span)}

/-- Dotted identifiers after a first one, or nothing. -/
theorem isPathFrom_true_of_repeats
    (h : Repeats (char '.' ++ ident).Accepts pre w post gs) :
    gs = [] ∧ isPathFrom true w = true := by
  induction h with
  | none => exact ⟨rfl, rfl⟩
  | @more pre u v post gu gv first _ _ ih =>
      rw [accepts_append_of_left fun _ _ _ _ => accepts_char] at first
      simp only [accepts_ident] at first
      obtain ⟨_, i, rfl, rfl, hi, rfl⟩ := first
      obtain ⟨rfl, hv⟩ := ih
      cases i with
      | nil => cases hi
      | cons c i =>
          simp only [isIdent, Bool.and_eq_true, List.all_eq_true] at hi
          refine ⟨rfl, ?_⟩
          change (isIdentStart c && isPathFrom true (i ++ v)) = true
          rw [isPathFrom_true_append hi.2, hi.1, hv]
          rfl

/-- What continues a path is the rest of an identifier and then dotted identifiers. -/
theorem exists_repeats_of_isPathFrom {inside : Bool} {s : List Char}
    (h : isPathFrom inside s = true) : ∃ i r, s = i ++ r ∧
      (if inside then i.all isIdentChar else isIdent i) = true ∧
      ∀ pre post, Repeats (char '.' ++ ident).Accepts pre r post [] := by
  induction s generalizing inside with
  | nil =>
      cases inside with
      | false => cases h
      | true => exact ⟨[], [], rfl, rfl, fun _ _ => .none _ _⟩
  | cons c s ih =>
      cases inside with
      | false =>
          simp only [isPathFrom, Bool.and_eq_true] at h
          obtain ⟨i, r, rfl, hi, hr⟩ := ih h.2
          exact ⟨c :: i, r, rfl, by simpa [isIdent, h.1] using hi, hr⟩
      | true =>
          simp only [isPathFrom] at h
          split_ifs at h with hdot
          · rw [beq_iff_eq] at hdot
            subst hdot
            obtain ⟨i, r, rfl, hi, hr⟩ := ih h
            refine ⟨[], '.' :: (i ++ r), rfl, rfl, fun pre post => ?_⟩
            have first : (char '.' ++ ident).Accepts pre ('.' :: i) (r ++ post) [] := by
              rw [accepts_append_of_left fun _ _ _ _ => accepts_char]
              exact ⟨['.'], i, rfl, rfl, accepts_ident.mpr ⟨hi, rfl⟩⟩
            exact .more first (by simp) (hr _ _)
          · rw [Bool.and_eq_true] at h
            obtain ⟨i, r, rfl, hi, hr⟩ := ih h.2
            exact ⟨c :: i, r, rfl, by simpa [h.1] using hi, hr⟩

theorem accepts_identPath : identPath.Accepts pre w post gs ↔ isPath w = true ∧ gs = [] := by
  rw [identPath, accepts_append_of_left fun _ _ _ _ => accepts_ident]
  constructor
  · rintro ⟨u, v, rfl, hu, hv⟩
    obtain ⟨rfl, hdots⟩ := isPathFrom_true_of_repeats hv
    cases u with
    | nil => cases hu
    | cons c u =>
        simp only [isIdent, Bool.and_eq_true, List.all_eq_true] at hu
        refine ⟨?_, rfl⟩
        change (isIdentStart c && isPathFrom true (u ++ v)) = true
        rw [isPathFrom_true_append hu.2, hu.1, hdots]
        rfl
  · rintro ⟨h, rfl⟩
    obtain ⟨i, r, rfl, hi, hr⟩ := exists_repeats_of_isPathFrom h
    exact ⟨i, r, rfl, hi, hr _ _⟩

/-- The characters of a key between marks of one kind. -/
theorem accepts_keyChars {mark : Char} {s : String} (hs : s.toList = [mark, '\\']) :
    (plus (charNotOf s)).Accepts pre w post gs ↔
      (w ≠ [] ∧ ∀ c ∈ w, c ≠ mark ∧ c ≠ '\\') ∧ gs = [] := by
  rw [accepts_plus fun _ _ _ _ => accepts_charNotOf, hs]
  simp

/-- A quoted key with one of the marks. -/
theorem accepts_keyBetween (mark : Char) {s : String} {index : Nat}
    (hs : s.toList = [mark, '\\']) :
    (char mark ++ group index (plus (charNotOf s)) ++ char mark).Accepts pre w post gs ↔
      ∃ key, w = mark :: (key ++ [mark]) ∧ key ≠ [] ∧ (∀ c ∈ key, c ≠ mark ∧ c ≠ '\\') ∧
        gs = [(index, ⟨width pre + mark.utf8Size, key⟩)] := by
  rw [accepts_append_of_right fun _ _ _ _ => accepts_char]
  simp only [accepts_append_of_left fun _ _ _ _ => accepts_char, accepts_group,
    accepts_keyChars hs]
  constructor
  · rintro ⟨u, v, rfl, ⟨u, key, rfl, rfl, g, ⟨⟨hne, hclean⟩, rfl⟩, rfl⟩, rfl⟩
    exact ⟨key, by simp, hne, hclean, by simp⟩
  · rintro ⟨key, rfl, hne, hclean, rfl⟩
    exact ⟨mark :: key, [mark], by simp, ⟨[mark], key, rfl, rfl, [], ⟨⟨hne, hclean⟩, rfl⟩,
      by simp⟩, rfl⟩

theorem accepts_quotedKey {double single : Nat} :
    (quotedKey double single).Accepts pre w post gs ↔
      ∃ k : QuotedKey, w = k.text ∧ gs = [k.group double single (width pre)] := by
  rw [quotedKey, accepts_orElse, accepts_keyBetween '"' rfl, accepts_keyBetween '\x27' rfl]
  constructor
  · rintro (⟨key, rfl, hne, hclean, rfl⟩ | ⟨key, rfl, hne, hclean, rfl⟩)
    · exact ⟨⟨'"', key, .inl rfl, hne, hclean⟩, rfl, rfl⟩
    · exact ⟨⟨'\x27', key, .inr rfl, hne, hclean⟩, rfl, rfl⟩
  · rintro ⟨⟨mark, key, rfl | rfl, hne, hclean⟩, rfl, rfl⟩
    · exact .inl ⟨key, rfl, hne, hclean, rfl⟩
    · exact .inr ⟨key, rfl, hne, hclean, rfl⟩

theorem accepts_receiver :
    (group 1 identPath).Accepts pre w post gs ↔ isPath w = true ∧ gs = [(1, ⟨width pre, w⟩)] := by
  simp only [accepts_group, accepts_identPath]
  constructor
  · rintro ⟨_, ⟨h, rfl⟩, rfl⟩
    exact ⟨h, rfl⟩
  · rintro ⟨h, rfl⟩
    exact ⟨[], ⟨h, rfl⟩, rfl⟩

/-- What stands before the key of an access by brackets. -/
theorem accepts_bracketOpening :
    (group 1 identPath ++ blanks ++ char '[' ++ blanks).Accepts pre w post gs ↔
      ∃ r g o, w = r ++ g ++ '[' :: o ∧ isPath r = true ∧ (∀ c ∈ g, isBlank c = true) ∧
        (∀ c ∈ o, isBlank c = true) ∧ gs = [(1, ⟨width pre, r⟩)] := by
  simp only [accepts_append_of_right fun _ _ _ _ => accepts_blanks,
    accepts_append_of_right fun _ _ _ _ => accepts_char, accepts_receiver]
  constructor
  · rintro ⟨_, o, rfl, ⟨_, _, rfl, ⟨r, g, rfl, ⟨hr, rfl⟩, hg⟩, rfl⟩, ho⟩
    exact ⟨r, g, o, by simp, hr, hg, ho, rfl⟩
  · rintro ⟨r, g, o, rfl, hr, hg, ho, rfl⟩
    exact ⟨r ++ g ++ ['['], o, by simp, ⟨r ++ g, ['['], rfl, ⟨r, g, rfl, ⟨hr, rfl⟩, hg⟩, rfl⟩, ho⟩

/-- The pattern for accesses by brackets spells the subscripts. -/
theorem spells_bracketAccess : Spells bracketAccess Subscript.text Subscript.groups where
  text_ne_nil := Subscript.text_ne_nil
  unambiguous := Subscript.unambiguous
  accepts_iff := by
    intro pre w post gs
    rw [bracketAccess, accepts_append_of_right fun _ _ _ _ => accepts_char]
    simp only [accepts_append_of_right fun _ _ _ _ => accepts_blanks,
      accepts_append_congr (fun _ _ _ _ => accepts_bracketOpening) fun _ _ _ _ => accepts_quotedKey]
    constructor
    · rintro ⟨_, _, rfl, ⟨_, cl, rfl, ⟨_, _, _, _, rfl, rfl, ⟨r, g, o, rfl, hr, hg, ho, rfl⟩,
        k, rfl, rfl⟩, hcl⟩, rfl⟩
      refine ⟨⟨r, g, o, k, cl, hr, hg, ho, hcl⟩, ?_, ?_⟩
      · simp [Subscript.text, Subscript.tail]
      · simp [Subscript.groups]
    · rintro ⟨⟨r, g, o, k, cl, hr, hg, ho, hcl⟩, rfl, rfl⟩
      refine ⟨r ++ g ++ '[' :: o ++ k.text ++ cl, [']'], ?_, ⟨r ++ g ++ '[' :: o ++ k.text, cl, rfl,
        ⟨r ++ g ++ '[' :: o, k.text, _, _, rfl, ?_, ⟨r, g, o, rfl, hr, hg, ho, rfl⟩, k, rfl, rfl⟩,
        hcl⟩, rfl⟩
      · simp [Subscript.text, Subscript.tail]
      · simp [Subscript.groups]

theorem accepts_method : (group 2 (word ["get", "has"])).Accepts pre w post gs ↔
    (w = ['g', 'e', 't'] ∨ w = ['h', 'a', 's']) ∧ gs = [(2, ⟨width pre, w⟩)] := by
  have hword : ∀ g, (word ["get", "has"]).Accepts pre w post g ↔
      (w = ['g', 'e', 't'] ∨ w = ['h', 'a', 's']) ∧ g = [] := by
    intro g
    change ((lit "get").Accepts pre w post g ∨ (lit "has").Accepts pre w post g) ↔ _
    simp only [accepts_lit]
    exact or_and_right.symm
  simp only [accepts_group, hword]
  constructor
  · rintro ⟨_, ⟨h, rfl⟩, rfl⟩
    exact ⟨h, rfl⟩
  · rintro ⟨h, rfl⟩
    exact ⟨[], ⟨h, rfl⟩, rfl⟩

theorem accepts_receiverDot : (group 1 identPath ++ char '.').Accepts pre w post gs ↔
    ∃ r, w = r ++ ['.'] ∧ isPath r = true ∧ gs = [(1, ⟨width pre, r⟩)] := by
  rw [accepts_append_of_right fun _ _ _ _ => accepts_char]
  simp only [accepts_receiver]
  constructor
  · rintro ⟨r, _, rfl, ⟨hr, rfl⟩, rfl⟩
    exact ⟨r, rfl, hr, rfl⟩
  · rintro ⟨r, rfl, hr, rfl⟩
    exact ⟨r, ['.'], rfl, ⟨hr, rfl⟩, rfl⟩

/-- What stands before the key of a call. -/
theorem accepts_callOpening :
    (group 1 identPath ++ char '.' ++ group 2 (word ["get", "has"]) ++ char '(' ++
      blanks).Accepts pre w post gs ↔
      ∃ r m o, w = r ++ '.' :: (m ++ '(' :: o) ∧ isPath r = true ∧
        (m = ['g', 'e', 't'] ∨ m = ['h', 'a', 's']) ∧ (∀ c ∈ o, isBlank c = true) ∧
        gs = [(2, ⟨width pre + width (r ++ ['.']), m⟩), (1, ⟨width pre, r⟩)] := by
  simp only [accepts_append_of_right fun _ _ _ _ => accepts_blanks,
    accepts_append_of_right fun _ _ _ _ => accepts_char,
    accepts_append_congr (fun _ _ _ _ => accepts_receiverDot) fun _ _ _ _ => accepts_method]
  constructor
  · rintro ⟨_, o, rfl, ⟨_, _, rfl, ⟨_, m, _, _, rfl, rfl, ⟨r, rfl, hr, rfl⟩, hm, rfl⟩, rfl⟩, ho⟩
    exact ⟨r, m, o, by simp, hr, hm, ho, by simp⟩
  · rintro ⟨r, m, o, rfl, hr, hm, ho, rfl⟩
    exact ⟨r ++ ['.'] ++ m ++ ['('], o, by simp, ⟨r ++ ['.'] ++ m, ['('], rfl,
      ⟨r ++ ['.'], m, _, _, rfl, by simp, ⟨r, rfl, hr, rfl⟩, hm, rfl⟩, rfl⟩, ho⟩

/-- The pattern for calls spells the beginnings of calls. -/
theorem spells_callAccess : Spells callAccess Call.text Call.groups where
  text_ne_nil := Call.text_ne_nil
  unambiguous := Call.unambiguous
  accepts_iff := by
    intro pre w post gs
    rw [callAccess, accepts_append_congr (fun _ _ _ _ => accepts_callOpening)
      fun _ _ _ _ => accepts_quotedKey]
    constructor
    · rintro ⟨_, _, _, _, rfl, rfl, ⟨r, m, o, rfl, hr, hm, ho, rfl⟩, k, rfl, rfl⟩
      refine ⟨⟨r, m, o, k, hr, hm, ho⟩, ?_, ?_⟩
      · simp [Call.text, Call.tail]
      · simp [Call.groups]
    · rintro ⟨⟨r, m, o, k, hr, hm, ho⟩, rfl, rfl⟩
      refine ⟨r ++ '.' :: (m ++ '(' :: o), k.text, _, _, ?_, ?_, ⟨r, m, o, rfl, hr, hm, ho, rfl⟩, k,
        rfl, rfl⟩
      · simp [Call.text, Call.tail]
      · simp [Call.groups]

end patterns

end GodotLint.Script
