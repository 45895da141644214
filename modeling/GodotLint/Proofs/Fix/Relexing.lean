import GodotLint.Proofs.Fix.Text

/-!
# Reading a fixed line

The fix writes a key between double quotation marks, so the line that it leaves may be read in
other ways than the line that it met. Where no rewritten key has a double quotation mark, the
quoting of the line stays as it was outside of the calls (`read_spliced`, `everywhere_spliced`).
Where moreover no bracket opens inside of a literal, no subscript begins in a call
(`barren_callFor`) or reaches into one, so the subscripts that are left are those that the fix
has kept, and none of them is open (`not_isOpen_of_spliced`).

A second pass changes nothing exactly when the first one has left no open read. This need not be
so: a double quotation mark in a key ends the literal that the fix writes, and what were literals
behind it may become code (`dictAccess_changes_again`). It is so for texts in which no bracket
opens inside of a literal and no rewritten key has a double quotation mark. Both conditions are
there for a reason: a key may also open a bracket that the second reading takes for one of code.
-/

namespace GodotLint.Fixer

open Text Script Pattern

/-! ## The quoting of a call -/

/-- Characters of paths are neither quotation marks nor comment marks nor brackets. -/
theorem isPathChar_plain {c : Char} (h : isPathChar c = true) :
    ¬ Quoting.IsMark c ∧ c ≠ '#' ∧ c ≠ '[' ∧ c ≠ '(' ∧ c ≠ '\\' := by
  have hne : ∀ d ∈ "\"'#[(\\".toList, c ≠ d := by
    rintro d hd rfl
    revert h
    simp only [String.reduceToList, List.mem_cons, List.not_mem_nil, or_false] at hd
    rcases hd with rfl | rfl | rfl | rfl | rfl | rfl <;> decide
  simp only [String.reduceToList, List.mem_cons, List.not_mem_nil, or_false, forall_eq_or_imp,
    forall_eq] at hne
  simp [Quoting.IsMark, hne]

/-- Blanks are neither quotation marks nor backslashes. -/
theorem isBlank_plain {c : Char} (h : isBlank c = true) : ¬ Quoting.IsMark c ∧ c ≠ '\\' := by
  constructor
  · intro hc
    rw [hc.not_blank] at h
    cases h
  · rintro rfl
    revert h
    decide

variable {a : Subscript}

theorem callFor_eq_append (a : Subscript) : callFor a = a.receiver ++ ".get(".toList ++
    '"' :: (a.quoted.key ++ ['"']) ++ ", ".toList ++
      (KeyDefault.ofKey (str a.quoted.key)).expression.toList ++ [')'] := by
  simp [callFor_eq]

/-- A key without double quotation marks is clean between them. -/
theorem clean_of_not_mem (h : '"' ∉ a.quoted.key) : ∀ c ∈ a.quoted.key, c ≠ '"' ∧ c ≠ '\\' :=
  fun c hc => ⟨fun hq => h (hq ▸ hc), (a.quoted.clean c hc).2⟩

/-- A text that is read from outside of literals to outside of them, each character standing where
`P` allows it. -/
structure Block (P : Quoting → Char → Prop) (s : List Char) : Prop where
  read : Quoting.read .outside s = .outside
  everywhere : Line.Everywhere P .outside s

/-- A character that is neither a quotation mark nor a comment mark. -/
def isPlain (c : Char) : Bool := c != '"' && c != '\x27' && c != '#'

section block

variable {P : Quoting → Char → Prop} {s t : List Char}

theorem Block.append (hs : Block P s) (ht : Block P t) : Block P (s ++ t) where
  read := by rw [Quoting.read_append, hs.read, ht.read]
  everywhere := by
    rw [Line.everywhere_append, hs.read]
    exact ⟨hs.everywhere, ht.everywhere⟩

/-- Text without marks, where `P` allows it outside of literals. -/
theorem block_plain (hout : ∀ c, c ≠ '#' → P .outside c) (hs : s.all isPlain = true) :
    Block P s := by
  simp only [isPlain, List.all_eq_true, Bool.and_eq_true, bne_iff_ne] at hs
  have hmark : ∀ c ∈ s, ¬ Quoting.IsMark c := fun c hc => not_or.mpr (hs c hc).1
  exact ⟨Quoting.read_outside hmark, Line.everywhere_outside hmark fun c hc => hout c (hs c hc).2⟩

/-- A literal between double quotation marks. -/
theorem block_literal (hs : ∀ c ∈ s, c ≠ '"' ∧ c ≠ '\\') (hout : ∀ c, c ≠ '#' → P .outside c)
    (hmark : P (.inside '"') '"') (hkey : ∀ c ∈ s, P (.inside '"') c) :
    Block P ('"' :: (s ++ ['"'])) where
  read := Quoting.read_literal (.inl rfl) hs
  everywhere := by
    refine Line.everywhere_cons.mpr ⟨hout '"' (by decide), Line.everywhere_append.mpr ⟨?_, ?_⟩⟩
    · exact Line.everywhere_inside hs hkey
    · rw [Quoting.next_outside_of_mark (.inl rfl), Quoting.read_inside hs]
      exact Line.everywhere_cons.mpr ⟨hmark, .nil⟩

/-- A default. -/
theorem block_expression (hout : ∀ c, c ≠ '#' → P .outside c) (hmark : P (.inside '"') '"')
    (d : KeyDefault) : Block P d.expression.toList := by
  cases d with
  | emptyString => exact block_literal (s := []) (by simp) hout hmark (by simp)
  | _ => exact block_plain hout (by decide)

/-- The call that stands in for a subscript whose key has no double quotation mark. -/
theorem block_callFor (h : '"' ∉ a.quoted.key) (hout : ∀ c, c ≠ '#' → P .outside c)
    (hmark : P (.inside '"') '"') (hkey : ∀ c ∈ a.quoted.key, P (.inside '"') c) :
    Block P (callFor a) := by
  have hreceiver : a.receiver.all isPlain = true := by
    rw [List.all_eq_true]
    intro c hc
    have := isPathChar_plain (mem_isPathFrom a.isPath c hc)
    simpa [isPlain, Quoting.IsMark] using ⟨not_or.mp this.1, this.2.1⟩
  rw [callFor_eq_append]
  refine ((((Block.append ?_ ?_).append ?_).append ?_).append ?_).append ?_
  · exact block_plain hout hreceiver
  · exact block_plain hout (by decide)
  · exact block_literal (clean_of_not_mem h) hout hmark hkey
  · exact block_plain hout (by decide)
  · exact block_expression hout hmark _
  · exact block_plain hout (by decide)

end block

/-- A subscript is read from outside of literals to outside of them. -/
theorem read_text (a : Subscript) : Quoting.read .outside a.text = .outside := by
  have hreceiver : Quoting.read .outside a.receiver = .outside :=
    Quoting.read_outside fun c hc => (isPathChar_plain (mem_isPathFrom a.isPath c hc)).1
  have hblank : ∀ s : List Char, (∀ c ∈ s, isBlank c = true) →
      Quoting.read .outside s = .outside := fun s hs =>
    Quoting.read_outside fun c hc => (isBlank_plain (hs c hc)).1
  have hbracket : Quoting.next .outside '[' = .outside := by decide
  rw [Subscript.text, Subscript.tail]
  simp only [Quoting.read_append, Quoting.read_cons, hreceiver, hblank _ a.gap_blank, hbracket,
    hblank _ a.opening_blank, a.quoted.read_text, hblank _ a.closing_blank]
  decide

/-! ## The quoting of a fixed line -/

section quoting

variable {pre post : List Char} {ps : List (Placed Subscript)}

/-- No key that is rewritten has a double quotation mark. -/
def KeysPlain (ps : List (Placed Subscript)) : Prop :=
  ∀ x ∈ ps, isOpen x = true → '"' ∉ x.token.quoted.key

theorem keysPlain_iff {line : List Char} (h : Scan Subscript.text [] (Line.code line) ps) :
    KeysPlain ps ↔ ∀ m ∈ openReads line, '"' ∉ m.group 2 ++ m.group 3 := by
  simp only [KeysPlain, openReads_eq h, List.forall_mem_map, List.mem_filter, and_imp]
  refine forall₃_congr fun x _ _ => ?_
  rw [group_key]

theorem read_before_of_isOpen {x : Placed Subscript} (h : isOpen x = true) :
    Quoting.read .outside x.before = .outside := by
  simp only [isOpen, isOutside, Bool.and_eq_true, Bool.not_eq_true'] at h
  exact Quoting.isInside_eq_false_iff.mp h.1.1

/-- What stands in the place of a token is read as the token. -/
theorem read_rewritten {x : Placed Subscript}
    (hkey : isOpen x = true → '"' ∉ x.token.quoted.key) :
    (Quoting.read .outside x.before).read (rewritten x) =
      (Quoting.read .outside x.before).read x.token.text := by
  rw [rewritten]
  split_ifs with h
  · rw [read_before_of_isOpen h, read_text,
      (block_callFor (P := fun _ _ => True) (hkey h) (by simp) trivial (by simp)).read]
  · rfl

/-- A fixed text is read as the text. -/
theorem read_spliced (h : Row Subscript.text pre post ps) (hkeys : KeysPlain ps) :
    (Quoting.read .outside pre).read (spliced pre post ps) =
      (Quoting.read .outside pre).read post := by
  induction h with
  | nil => rfl
  | @cons pre gap rest after a ps _ ih =>
      have hhead := read_rewritten (hkeys _ (List.mem_cons_self ..))
      have hlater := ih fun x hx => hkeys x (List.mem_cons_of_mem _ hx)
      simp only [Quoting.read_append] at hhead hlater
      simp only [spliced_cons, Quoting.read_append, hhead, hlater]

/-- What stands where `P` allows it still does so after the fix, if this holds of the calls. -/
theorem everywhere_spliced {P : Quoting → Char → Prop} (h : Row Subscript.text pre post ps)
    (hkeys : KeysPlain ps)
    (hcalls : ∀ x ∈ ps, isOpen x = true → Line.Everywhere P .outside (callFor x.token))
    (hpost : Line.Everywhere P (Quoting.read .outside pre) post) :
    Line.Everywhere P (Quoting.read .outside pre) (spliced pre post ps) := by
  induction h with
  | nil => exact hpost
  | @cons pre gap rest after a ps _ ih =>
      simp only [Line.everywhere_append] at hpost
      obtain ⟨⟨hgap, htext⟩, hrest⟩ := hpost
      have hhead := read_rewritten (hkeys _ (List.mem_cons_self ..))
      rw [spliced_cons]
      refine Line.everywhere_append.mpr ⟨Line.everywhere_append.mpr ⟨hgap, ?_⟩, ?_⟩
      · rw [rewritten]
        split_ifs with hopen
        · have hbefore := read_before_of_isOpen hopen
          rw [Quoting.read_append] at hbefore
          rw [hbefore]
          exact hcalls _ (List.mem_cons_self ..) hopen
        · exact htext
      · have hlater := ih (fun x hx => hkeys x (List.mem_cons_of_mem _ hx))
          (fun x hx => hcalls x (List.mem_cons_of_mem _ hx))
        simp only [Quoting.read_append] at hhead hlater hrest ⊢
        rw [hhead]
        exact hlater hrest

/-- The code of a fixed line is the code with its tokens rewritten. -/
theorem code_spliced {code comment : List Char} (h : Scan Subscript.text [] code ps)
    (hkeys : KeysPlain ps) (hcode : Line.Unmarked .outside code)
    (hcomment : Line.Closes (Quoting.read .outside code) comment) :
    Line.code (spliced [] code ps ++ comment) = spliced [] code ps := by
  refine Line.code_append_of ?_ ?_
  · refine everywhere_spliced h.row hkeys (fun x hx hopen => ?_) hcode
    exact (block_callFor (hkeys x hx hopen) (by simp) (by simp) (by simp)).everywhere
  · have := read_spliced h.row hkeys
    simp only [Quoting.read_nil] at this
    rwa [this]

end quoting

/-! ## Where subscripts begin -/

/-- Text in which no subscript begins, whatever follows it. -/
def Barren (s : List Char) : Prop :=
  ∀ u v t, s = u ++ v → v ≠ [] → ¬ Begins Subscript.text (v ++ t)

theorem Barren.append {s t : List Char} (hs : Barren s) (ht : Barren t) : Barren (s ++ t) := by
  intro u v w h hv
  rcases List.append_eq_append_iff.mp h with ⟨r, rfl, rfl⟩ | ⟨r, rfl, rfl⟩
  · exact ht r v w rfl hv
  · by_cases hr : r = []
    · subst hr
      rw [List.nil_append]
      exact ht [] t w rfl (by simpa using hv)
    · rw [List.append_assoc]
      exact hs u r (t ++ w) rfl hr

/-- No subscript begins where no identifier does. -/
theorem barren_of_not_isIdentStart {s : List Char} (h : s.all (!isIdentStart ·) = true) :
    Barren s := by
  rintro u v t rfl hv ⟨a, rest, hbegins⟩
  obtain ⟨c, r, hreceiver, hc, -⟩ := exists_cons_of_isPath a.isPath
  cases v with
  | nil => exact hv rfl
  | cons d v =>
      rw [Subscript.text, hreceiver] at hbegins
      have hd := List.all_eq_true.mp h d (by simp)
      rw [List.cons_append, List.cons_append, List.cons_append, List.cons.injEq] at hbegins
      rw [hbegins.1, hc] at hd
      cases hd

/-- No subscript begins in text without a bracket that a character ends which is neither of a path
nor blank. -/
theorem barren_append_singleton {s : List Char} {c : Char} (hs : '[' ∉ s ++ [c])
    (hc : isPathChar c = false ∧ isBlank c = false) : Barren (s ++ [c]) := by
  rintro u v t h hv ⟨a, rest, hbegins⟩
  have hbracket : '[' ∉ v := fun hmem => hs (h ▸ List.mem_append_right u hmem)
  have hmem : c ∈ v := by
    have hlast := congrArg List.getLast? h
    rw [List.getLast?_append_of_ne_nil _ hv, List.getLast?_concat] at hlast
    exact List.mem_of_getLast? hlast.symm
  -- `c` would have to stand in the name or in the blanks before the bracket
  have hname : c ∉ a.receiver ++ a.gap := by
    intro hname
    rcases List.mem_append.mp hname with hname | hname
    · rw [mem_isPathFrom a.isPath c hname] at hc
      cases hc.1
    · rw [a.gap_blank c hname] at hc
      cases hc.2
  rw [Subscript.text, Subscript.tail, ← List.append_assoc, List.append_assoc,
    List.append_eq_append_iff] at hbegins
  rcases hbegins with ⟨r, hr, -⟩ | ⟨r, rfl, hr⟩
  · exact hname (hr ▸ List.mem_append_left r hmem)
  · cases r with
    | nil => exact hname (by simpa using hmem)
    | cons d r =>
        rw [List.cons_append, List.cons_append, List.cons.injEq] at hr
        obtain ⟨rfl, -⟩ := hr
        exact hbracket (by simp)

/-- No subscript begins in the end of a call. -/
theorem barren_expression (d : KeyDefault) : Barren (d.expression.toList ++ [')']) := by
  cases d with
  | no | zero | null => exact barren_append_singleton (by decide) (by decide)
  | _ => exact barren_of_not_isIdentStart (by decide)

/-- No subscript begins in a call whose key has no bracket. -/
theorem barren_callFor {a : Subscript} (h : '[' ∉ a.quoted.key) : Barren (callFor a) := by
  have hname : '[' ∉ a.receiver ++ ".get".toList ++ ['('] := by
    simp only [List.mem_append, not_or]
    refine ⟨⟨fun hmem => ?_, by decide⟩, by decide⟩
    exact (isPathChar_plain (mem_isPathFrom a.isPath _ hmem)).2.2.1 rfl
  have hkey : '[' ∉ '"' :: a.quoted.key ++ ['"'] := by simpa using h
  have hcall : callFor a = (a.receiver ++ ".get".toList ++ ['(']) ++
      ('"' :: a.quoted.key ++ ['"']) ++ ", ".toList ++ ((KeyDefault.ofKey (str a.quoted.key)).expression.toList ++ [')']) := by
    simp [callFor_eq]
  rw [hcall]
  refine ((Barren.append ?_ ?_).append ?_).append (barren_expression _)
  · exact barren_append_singleton hname (by decide)
  · exact barren_append_singleton hkey (by decide)
  · exact barren_of_not_isIdentStart (by decide)

/-! ## Where subscripts end -/

/-- What stands before a character is cut where another character has to come before it. -/
theorem exists_of_append_cons {u v w s : List Char} {c d : Char} (hc : c ∉ s) (hd : c ≠ d)
    (h : v ++ c :: w = s ++ d :: u) : ∃ t, v = s ++ d :: t ∧ t ++ c :: w = u := by
  rcases List.append_eq_append_iff.mp h with ⟨r, rfl, hr⟩ | ⟨r, rfl, hr⟩
  · cases r with
    | nil => exact absurd (List.cons.inj hr).1 hd
    | cons e r =>
        rw [List.cons_append, List.cons.injEq] at hr
        exact absurd (by simp [hr.1]) hc
  · cases r with
    | nil => exact absurd (List.cons.inj hr).1.symm hd
    | cons e r =>
        rw [List.cons_append, List.cons.injEq] at hr
        obtain ⟨rfl, rfl⟩ := hr
        exact ⟨r, rfl, rfl⟩

/-- A character of identifiers that stands in a text with blanks and a quoted key in front stands
inside of the key or behind it. -/
theorem crossing_key {k : QuotedKey} {o s v w : List Char} {c : Char}
    (ho : ∀ x ∈ o, isBlank x = true) (hc : isIdentChar c = true)
    (h : v ++ c :: w = o ++ (k.text ++ s)) :
    (∃ t, v = o ++ (k.text ++ t) ∧ t ++ c :: w = s) ∨
      ∃ t, v = o ++ k.mark :: t ∧ ∀ d ∈ t, d ≠ k.mark ∧ d ≠ '\\' := by
  have hmark : c ≠ k.mark := fun heq =>
    (isPathChar_plain (isPathChar_of_isIdentChar hc)).1 (heq ▸ k.isMark)
  have hblank : c ∉ o := by
    intro hmem
    have := ho c hmem
    rw [isBlank_eq_false_of_isIdentChar hc] at this
    cases this
  simp only [QuotedKey.text, List.cons_append, List.append_assoc, List.nil_append] at h ⊢
  obtain ⟨v, rfl, hkey⟩ := exists_of_append_cons hblank hmark h
  rcases List.append_eq_append_iff.mp hkey with ⟨t, hv, -⟩ | ⟨v, rfl, hrest⟩
  · refine .inr ⟨v, rfl, fun d hd => k.clean d ?_⟩
    rw [hv]
    exact List.mem_append_left t hd
  · obtain ⟨t, rfl, ht⟩ := exists_of_append_cons (s := []) (by simp) hmark hrest.symm
    exact .inl ⟨t, rfl, ht⟩

/-- A subscript that begins before a name takes the name into its path, or ends before it, or the
name stands inside its key. -/
theorem crossing {b : Subscript} {v r z s : List Char} (hr : isPath r = true)
    (h : v ++ (r ++ z) = b.text ++ s) :
    isPath (v ++ r) = true ∨ (∃ t, v = b.text ++ t) ∨
      ∃ k, v = b.receiver ++ b.gap ++ '[' :: (b.opening ++ b.quoted.mark :: k) ∧
        ∀ c ∈ k, c ≠ b.quoted.mark ∧ c ≠ '\\' := by
  obtain ⟨c, r', rfl, hc, -⟩ := exists_cons_of_isPath hr
  have hident := isIdentChar_of_isIdentStart hc
  have hblank : ∀ s : List Char, (∀ c ∈ s, isBlank c = true) → c ∉ s := by
    intro s hs hmem
    have := hs c hmem
    rw [isBlank_eq_false_of_isIdentChar hident] at this
    cases this
  have hopen : c ≠ '[' := (isPathChar_plain (isPathChar_of_isIdentChar hident)).2.2.1
  have hclose : c ≠ ']' := by
    rintro rfl
    revert hc
    decide
  simp only [Subscript.text, Subscript.tail, List.cons_append, List.append_assoc,
    List.nil_append] at h
  rcases List.append_eq_append_iff.mp h with ⟨t, hreceiver, -⟩ | ⟨v, rfl, hgap⟩
  · exact .inl (isPathFrom_append (hreceiver ▸ b.isPath) hr)
  · right
    obtain ⟨v, rfl, hopening⟩ := exists_of_append_cons (hblank _ b.gap_blank) hopen hgap.symm
    rcases crossing_key b.opening_blank hident hopening with ⟨v, rfl, hclosing⟩ | ⟨k, rfl, hk⟩
    · obtain ⟨v, rfl, -⟩ := exists_of_append_cons (hblank _ b.closing_blank) hclose hclosing
      exact .inl ⟨v, by simp [Subscript.text, Subscript.tail]⟩
    · exact .inr ⟨k, by simp, hk⟩

/-- A name that is put before the name of a subscript, as one path, makes it a longer subscript. -/
theorem exists_text_eq_of_isPath {a : Subscript} {v : List Char}
    (h : isPath (v ++ a.receiver) = true) : ∃ b : Subscript, b.text = v ++ a.text :=
  ⟨{ a with receiver := v ++ a.receiver, isPath := h }, by simp [Subscript.text, Subscript.tail]⟩

/-! ## The subscripts of a fixed line -/

section subscripts

variable {pre post : List Char} {ps qs : List (Placed Subscript)}

/-- Inside of a key, read from outside of literals before the subscript. -/
theorem read_opening (b : Subscript) {k : List Char}
    (hk : ∀ c ∈ k, c ≠ b.quoted.mark ∧ c ≠ '\\') :
    Quoting.read .outside (b.receiver ++ b.gap ++ '[' :: (b.opening ++ b.quoted.mark :: k)) =
      .inside b.quoted.mark := by
  have hname : Quoting.read .outside (b.receiver ++ b.gap) = .outside := by
    refine Quoting.read_outside fun c hc => ?_
    rcases List.mem_append.mp hc with hc | hc
    · exact (isPathChar_plain (mem_isPathFrom b.isPath c hc)).1
    · exact (isBlank_plain (b.gap_blank c hc)).1
  have hbracket : Quoting.next .outside '[' = .outside := by decide
  have hopening : Quoting.read .outside b.opening = .outside :=
    Quoting.read_outside fun c hc => (isBlank_plain (b.opening_blank c hc)).1
  rw [Quoting.read_append, hname, Quoting.read_cons, hbracket, Quoting.read_append, hopening,
    Quoting.read_cons, Quoting.next_outside_of_mark b.quoted.isMark, Quoting.read_inside hk]

/-- Where no bracket stands inside of a literal, every subscript starts outside of literals. -/
theorem read_before_of_bare {b : Subscript} {p s : List Char}
    (h : Line.Bare '[' (p ++ (b.receiver ++ b.gap ++ '[' :: s))) :
    Quoting.read .outside p = .outside := by
  have hread := h (p ++ (b.receiver ++ b.gap)) '[' s (by simp) rfl
  refine Quoting.eq_outside_of_read (fun c hc => ?_) hread
  rcases List.mem_append.mp hc with hc | hc
  · exact (isPathChar_plain (mem_isPathFrom b.isPath c hc)).1
  · exact (isBlank_plain (b.gap_blank c hc)).1

/-- A character that does not stand inside of literals does not stand in the key of a subscript that
starts outside of them. -/
theorem not_mem_key_of_bare {b : Subscript} {p s : List Char} {d : Char}
    (hstart : Quoting.read .outside p = .outside) (h : Line.Bare d (p ++ (b.text ++ s))) :
    d ∉ b.quoted.key := by
  intro hmem
  obtain ⟨k, l, hkey⟩ := List.append_of_mem hmem
  have hread := h (p ++ (b.receiver ++ b.gap ++ '[' :: (b.opening ++ b.quoted.mark :: k))) d
    (l ++ b.quoted.mark :: (b.closing ++ ']' :: s))
    (by simp [Subscript.text, Subscript.tail, QuotedKey.text, hkey]) rfl
  have hk : ∀ c ∈ k, c ≠ b.quoted.mark ∧ c ≠ '\\' := fun c hc =>
    b.quoted.clean c (by simp [hkey, hc])
  rw [Quoting.read_append, hstart, read_opening b hk] at hread
  cases hread

/-- Where no bracket stands inside of a literal, there is none in a key. -/
theorem bracket_not_mem_key {b : Subscript} {p s : List Char}
    (h : Line.Bare '[' (p ++ (b.text ++ s))) : '[' ∉ b.quoted.key := by
  refine not_mem_key_of_bare (read_before_of_bare (b := b)
    (s := b.opening ++ b.quoted.text ++ b.closing ++ [']'] ++ s) ?_) h
  simpa [Subscript.text, Subscript.tail] using h

/-- A token is open if it starts outside of literals, and neither an operator nor a further
subscript comes next. -/
theorem isOpen_eq (x : Placed Subscript) : isOpen x =
    (isOutside x && !startsAssignment (trimStart x.after) && !subscriptFollows x.after) := by
  rw [isOpen]
  cases h : subscriptFollows x.after
  · rw [occursIn_assignmentAfter_iff h]
  · simp

/-- Rewriting the tokens does not change whether an operator comes first. -/
theorem startsAssignment_spliced (h : Row Subscript.text pre post ps) :
    startsAssignment (trimStart (spliced pre post ps)) = startsAssignment (trimStart post) := by
  cases h with
  | nil => rfl
  | @cons _ gap rest after a ps _ =>
      obtain ⟨c, r, hreceiver, hc, -⟩ := exists_cons_of_isPath a.isPath
      obtain ⟨t, ht⟩ := exists_rewritten_eq ⟨pre ++ gap, a, after⟩
      have hblank := isBlank_eq_false_of_isIdentChar (isIdentChar_of_isIdentStart hc)
      rw [spliced_cons, ht, Subscript.text, hreceiver]
      simp only [List.cons_append, List.append_assoc, trimStart_append_of_not_blank hblank]
      exact startsAssignment_append_cons hc _ _ _

/-- No subscript begins in the text before a token after the fix, if none did so before it. -/
theorem not_begins_of_spliced {gap rest : List Char} {a : Subscript}
    (clear : ∀ u v, gap = u ++ v → v ≠ [] → ¬ Begins Subscript.text (v ++ a.text ++ rest))
    (hbare : Line.Bare '[' (pre ++ (gap ++ a.text ++ rest))) (out : List Char) :
    ∀ u v, gap = u ++ v → v ≠ [] → ¬ Begins Subscript.text (v ++ (a.receiver ++ out)) := by
  rintro u v rfl hv ⟨b, s, hb⟩
  rcases crossing a.isPath hb with hpath | ⟨t, hv'⟩ | ⟨k, hk, hclean⟩
  · obtain ⟨b, hb⟩ := exists_text_eq_of_isPath hpath
    exact clear u v rfl hv ⟨b, rest, by rw [hb]⟩
  · exact clear u v rfl hv ⟨b, t ++ (a.text ++ rest), by simp [hv']⟩
  · -- the token would start inside of the key
    have ha : Quoting.read .outside (pre ++ (u ++ v)) = .outside := by
      refine read_before_of_bare (b := a)
        (s := a.opening ++ a.quoted.text ++ a.closing ++ [']'] ++ rest) ?_
      simpa [Subscript.text, Subscript.tail] using hbare
    have hb : Quoting.read .outside (pre ++ u) = .outside := by
      refine read_before_of_bare (b := b)
        (s := b.opening ++ b.quoted.mark :: k ++ a.text ++ rest) ?_
      simpa [hk] using hbare
    rw [← List.append_assoc, Quoting.read_append, hb, hk, read_opening b hclean] at ha
    cases ha

/-- **No open read is left** on a line of code without brackets inside of literals, if no key that
is rewritten has a double quotation mark. -/
theorem not_isOpen_of_spliced (h : Scan Subscript.text pre post ps) (hkeys : KeysPlain ps)
    (hbare : Line.Bare '[' (pre ++ post)) {pre' : List Char}
    (hread : Quoting.read .outside pre' = Quoting.read .outside pre)
    (hqs : Scan Subscript.text pre' (spliced pre post ps) qs) : ∀ y ∈ qs, isOpen y = false := by
  induction h generalizing pre' qs with
  | @done pre post clear =>
      cases hqs with
      | done => simp
      | @next _ gap rest b _ _ _ => exact absurd ⟨b, rest, rfl⟩ (clear gap _ (by simp))
  | @next pre gap rest a ps clear later ih =>
      obtain ⟨t, ht⟩ := exists_rewritten_eq ⟨pre ++ gap, a, rest⟩
      have ha : Quoting.read .outside (pre ++ gap) = .outside := by
        refine read_before_of_bare (b := a)
          (s := a.opening ++ a.quoted.text ++ a.closing ++ [']'] ++ rest) ?_
        simpa [Subscript.text, Subscript.tail] using hbare
      have hgap : Quoting.read .outside (pre' ++ gap) = Quoting.read .outside (pre ++ gap) := by
        rw [Quoting.read_append, hread, Quoting.read_append]
      have hkeys' : KeysPlain ps := fun x hx => hkeys x (List.mem_cons_of_mem _ hx)
      have hbare' : Line.Bare '[' (pre ++ gap ++ a.text ++ rest) := by simpa using hbare
      have hhead := read_rewritten (hkeys _ (List.mem_cons_self ..))
      generalize hout : spliced (pre ++ gap ++ a.text) rest ps = out at ih
      rw [spliced_cons, hout, List.append_assoc] at hqs
      -- the scan of the fixed text passes the gap, as that of the text did
      have hrest := hqs.skip fun u v huv hv => by
        have := not_begins_of_spliced clear hbare (t ++ out) u v huv hv
        simpa [ht] using this
      cases hopen : isOpen ⟨pre ++ gap, a, rest⟩
      · rw [rewritten, hopen] at hrest
        obtain ⟨qs', hqs'⟩ := spells_bracketAccess.exists_scan_from (pre' ++ gap ++ a.text) out
        obtain rfl := hrest.unique spells_bracketAccess hqs'.token
        intro y hy
        rcases List.mem_cons.mp hy with rfl | hy
        · rw [isOpen_eq] at hopen ⊢
          rw [← hopen, isOutside, isOutside, hgap, ← hout, startsAssignment_spliced later.row,
            subscriptFollows_spliced later.row]
        · exact ih hkeys' hbare' (by rw [Quoting.read_append, hgap, ← Quoting.read_append]) hqs' y hy
      · have hkey : '[' ∉ a.quoted.key := bracket_not_mem_key (p := pre ++ gap) (s := rest)
          (by simpa using hbare)
        rw [rewritten, hopen] at hrest
        have hlater := hrest.skip fun u v huv hv => barren_callFor hkey u v out huv hv
        refine ih hkeys' hbare' ?_ hlater
        rw [Quoting.read_append, hgap]
        rw [rewritten, hopen] at hhead
        exact hhead.trans (Quoting.read_append _ _ _).symm

end subscripts

/-! ## Fixing twice -/

/-- A line that reads dictionaries plainly: no bracket opens inside of a literal, and no key that
the fix rewrites has a double quotation mark. -/
structure ReadsPlainly (line : List Char) : Prop where
  brackets : Line.Bare '[' (Line.code line)
  keys : ∀ m ∈ openReads line, '"' ∉ m.group 2 ++ m.group 3

instance (line : List Char) : Decidable (ReadsPlainly line) :=
  decidable_of_iff
    (Line.Bare '[' (Line.code line) ∧ ∀ m ∈ openReads line, '"' ∉ m.group 2 ++ m.group 3)
    ⟨fun h => ⟨h.1, h.2⟩, fun h => ⟨h.brackets, h.keys⟩⟩

/-- A line that reads plainly is fixed by one pass. -/
theorem fixedLine_fixedLine {line : List Char} (h : ReadsPlainly line) :
    fixedLine (fixedLine line) = fixedLine line := by
  obtain ⟨ps, comment, hps, -, hcode, hcomment, hfixed⟩ := exists_fixedLine_eq line
  have hkeys := (keysPlain_iff hps).mpr h.keys
  have hfixedCode : Line.code (fixedLine line) = spliced [] (Line.code line) ps := by
    rw [hfixed, code_spliced hps hkeys hcode hcomment]
  obtain ⟨qs, hqs⟩ := spells_bracketAccess.exists_scan (spliced [] (Line.code line) ps)
  rw [← hfixedCode] at hqs
  rw [fixedLine_eq_self_iff, openReads_eq hqs, List.map_eq_nil_iff, List.filter_eq_nil_iff]
  intro y hy
  rw [not_isOpen_of_spliced hps hkeys h.brackets rfl (hfixedCode ▸ hqs) y hy]
  exact Bool.false_ne_true

/-- **A second pass** of the fix of dictionary accesses changes nothing exactly when the first has
left no open read, and so for every text whose lines read plainly. -/
theorem dictAccess_apply_apply (text : List Char) :
    (dictAccess.apply (dictAccess.apply text).text = ⟨(dictAccess.apply text).text, []⟩ ↔
      ∀ line ∈ lines (dictAccess.apply text).text, openReads line = []) ∧
    ((∀ line ∈ lines text, ReadsPlainly line) →
      dictAccess.apply (dictAccess.apply text).text = ⟨(dictAccess.apply text).text, []⟩) := by
  constructor
  · rw [apply_eq_self_iff, changes_eq_nil_iff_of_map revise_dictAccess]
    exact forall₂_congr fun line _ => fixedLine_eq_self_iff line
  · intro h
    rw [apply_eq_self_iff, changes_eq_nil_iff_of_map revise_dictAccess, lines_dictAccess,
      List.forall_mem_map]
    exact fun line hline => fixedLine_fixedLine (h line hline)

/-- A text with two accesses on a line and both line ends is fixed by one pass. -/
theorem dictAccess_apply_apply_mixed :
    (∀ line ∈ lines "x = a[\"k\"] + b.c['n'] # [\"\r\nif d[\"e\"][\"f\"]:\n".toList,
      ReadsPlainly line) ∧
    dictAccess.apply
      (dictAccess.apply "x = a[\"k\"] + b.c['n'] # [\"\r\nif d[\"e\"][\"f\"]:\n".toList).text =
        ⟨(dictAccess.apply
          "x = a[\"k\"] + b.c['n'] # [\"\r\nif d[\"e\"][\"f\"]:\n".toList).text, []⟩ :=
  have plain : ∀ line ∈ lines "x = a[\"k\"] + b.c['n'] # [\"\r\nif d[\"e\"][\"f\"]:\n".toList,
      ReadsPlainly line := by decide +kernel
  ⟨plain, (dictAccess_apply_apply _).2 plain⟩

/-- A double quotation mark in a key turns a literal behind it into code, which the second pass
changes. -/
theorem dictAccess_changes_again :
    (dictAccess.apply "x = a['q\"'] + \"b['y']\"".toList).text =
      "x = a.get(\"q\"\", null) + \"b['y']\"".toList ∧
    dictAccess.apply "x = a.get(\"q\"\", null) + \"b['y']\"".toList ≠
      ⟨"x = a.get(\"q\"\", null) + \"b['y']\"".toList, []⟩ := by
  decide +kernel

end GodotLint.Fixer
