import GodotLint.Proofs.Script.EnumBody

/-!
# The layout of enums

The line that opens an enum starts with blanks and `e`, so that none of the shapes that are tried before
that of enums is found on it (`EnumOpening.noEarlier`), and the text behind its opening brace is where the
body starts. With the body, the lines of an enum are read to their end: they add the enum and its values,
and change nothing else of what the reader keeps but that the annotations that wait are dropped
(`EnumLayout.exists_readLines`). Therefore the layout of an enum does not matter
(`enumLayout_irrelevant`). The values that a script names are those of the lines above, the items, and
those of the lines below; and outside of the enum a script declares what it does with lines in its place
that declare nothing.

The annotations are why these lines are not simply blank: one that waits above an enum is taken for it and
does not reach the next variable (`not_forall_enumLayout_irrelevant`). And the lines are those of an enum
only where no body of an enum is left open above them.
-/

namespace GodotLint

open Text Pattern

theorem Pattern.Accepts.append {p q : Pattern} {pre u v post : List Char} {gu gv : List (Nat × Span)}
    (hp : p.Accepts pre u (v ++ post) gu) (hq : q.Accepts (pre ++ u) v post gv) :
    (p ++ q).Accepts pre (u ++ v) post (gv ++ gu) :=
  accepts_append.mpr ⟨u, v, gu, gv, rfl, rfl, hp, hq⟩

namespace Script

/-! ## Ways to write an enum -/

/-- `enum NAME`, up to the opening brace. -/
inductive EnumOpening (name : List Char) : List Char → Prop
  | of (s₁ s₂ s₃ : List Char) (space₁ : IsSpace s₁) (space₂ : IsSpace s₂) (ne_nil : s₂ ≠ [])
      (ident : isIdent name = true) (space₃ : IsSpace s₃) :
      EnumOpening name (s₁ ++ "enum".toList ++ s₂ ++ name ++ s₃)

/-- The lines of an enum. -/
inductive EnumLayout (name : List Char) (items : List EnumItem) : List (List Char) → Prop
  | of (opening rest : List Char) {below : List (List Char)} (hopening : EnumOpening name opening)
      (body : EnumBody items rest below) : EnumLayout name items ((opening ++ '\x7b' :: rest) :: below)

variable {s rest name opening : List Char} {lines : List (List Char)} {item : EnumItem}
  {items : List EnumItem} {c : Char}

/-! ## Reading the opening line -/

/-- Two texts with the same first occurrence of a character go on alike behind it. -/
theorem eq_of_append_cons {u v : List Char} (hu : c ∉ u) (hv : c ∉ v) {x y : List Char}
    (h : u ++ c :: x = v ++ c :: y) : x = y := by
  rcases List.append_eq_append_iff.mp h with ⟨l, rfl, hx⟩ | ⟨l, rfl, hy⟩
  · cases l with
    | nil => exact (List.cons.inj hx).2
    | cons d l => exact absurd (by simp [(List.cons.inj hx).1]) hv
  · cases l with
    | nil => exact (List.cons.inj hy).2.symm
    | cons d l => exact absurd (by simp [(List.cons.inj hy).1]) hu

/-- What follows blanks in a text that starts with blanks and then `c` starts with a blank or with
`c`. -/
theorem exists_head?_of_blanks {u v a : List Char} (hu : ∀ d ∈ u, isBlank d = true)
    (ha : ∀ d ∈ a, isBlank d = true) (hc : isBlank c = false) (h : u ++ v = a ++ c :: s) :
    ∃ x ∈ c :: blankChars, v.head? = some x := by
  rcases List.append_eq_append_iff.mp h with ⟨l, rfl, rfl⟩ | ⟨l, rfl, hv⟩
  · cases l with
    | nil => exact ⟨c, List.mem_cons_self, rfl⟩
    | cons d l => exact ⟨d, List.mem_cons_of_mem _ (mem_blankChars (ha d (by simp))), rfl⟩
  · cases l with
    | nil => exact ⟨c, List.mem_cons_self, by rw [List.nil_append] at hv; rw [← hv]; rfl⟩
    | cons d l =>
        obtain ⟨rfl, -⟩ := List.cons.inj hv
        exact absurd (hu c (by simp)) (by simp [hc])

/-- A pattern that is anchored, runs through the blanks at the start and then accepts nothing before a
blank or before `c`. -/
def PassesOver (c : Char) (p : Pattern) : Prop :=
  p.first = .atStart ∧ (p.later.first = blanks ∨ p.later.first = group 1 blanks) ∧
    p.isAnchored = true ∧ (c :: blankChars).all (fun x => p.later.later.front x = .nothing) = true

instance (c : Char) (p : Pattern) : Decidable (PassesOver c p) :=
  inferInstanceAs (Decidable (_ ∧ _ ∧ _ ∧ _))

/-- Such a pattern is not found in a text that starts with blanks and then `c`. -/
theorem PassesOver.find?_eq_none {p : Pattern} (h : PassesOver c p) (hc : isBlank c = false)
    {a : List Char} (ha : ∀ d ∈ a, isBlank d = true) (s : List Char) :
    p.find? (a ++ c :: s) = none := by
  obtain ⟨hstart, hblanks, hanchored, hfront⟩ := h
  have hskips : ∀ pre w post gs, p.later.first.Accepts pre w post gs → ∀ d ∈ w, isBlank d = true := by
    intro pre w post gs hacc
    rcases hblanks with hg | hg
    · rw [hg, accepts_blanks] at hacc
      exact hacc.1
    · rw [hg] at hacc
      obtain ⟨g, hacc, -⟩ := hacc
      exact (accepts_blanks.mp hacc).1
  rw [find?_of_isAnchored hanchored]
  change (p.run (.at [] (a ++ c :: s) []) some).map _ = none
  rw [Option.map_eq_none_iff, Option.eq_none_iff_forall_ne_some]
  intro r hrun
  rw [run_of_first hstart] at hrun
  change check true (.at [] (a ++ c :: s) []) (p.later.run · some) = some r at hrun
  rw [check, if_pos rfl, run_first_later p.later] at hrun
  obtain ⟨w, rest, gs, htext, ⟨u, v, gu, gv, rfl, -, hu, hv⟩, -⟩ :=
    exists_accepts_of_run _ _ _ _ _ _ hrun
  rw [List.append_assoc] at htext
  obtain ⟨x, hx, hhead⟩ := exists_head?_of_blanks (hskips _ _ _ _ hu) ha hc htext.symm
  have hallows := allows_of_accepts hv hhead
  have hnothing := List.all_eq_true.mp hfront x hx
  rw [decide_eq_true_eq] at hnothing
  rw [hnothing] at hallows
  exact hallows

/-- An opening starts with blanks and `e`. -/
theorem EnumOpening.exists_eq (h : EnumOpening name opening) (rest : List Char) :
    ∃ a s, IsSpace a ∧ opening ++ rest = a ++ 'e' :: 'n' :: s := by
  cases h with
  | of s₁ s₂ s₃ space₁ => exact ⟨s₁, "um".toList ++ s₂ ++ name ++ s₃ ++ rest, space₁, by simp⟩

theorem EnumOpening.not_mem (h : EnumOpening name opening) (hc : c ∈ itemStops) : c ∉ opening := by
  have hident : (itemStops.all fun d => !isIdentChar d) = true := by decide
  have hspace : ∀ {s : List Char}, IsSpace s → c ∉ s := fun hs hmem => hs.not_mem_stops c hmem hc
  have henum : ("enum".toList.all fun d => !itemStops.contains d) = true := by decide
  obtain ⟨s₁, s₂, s₃, space₁, space₂, -, ident, space₃⟩ := h
  have hname : c ∉ name := fun hmem => by
    have := List.all_eq_true.mp hident c hc
    rw [isIdentChar_of_isIdent ident c hmem] at this
    cases this
  have hword : c ∉ "enum".toList := fun hmem => by
    have := List.all_eq_true.mp henum c hmem
    simp [hc] at this
  simp only [List.mem_append, not_or]
  exact ⟨⟨⟨⟨hspace space₁, hword⟩, hspace space₂⟩, hname⟩, hspace space₃⟩

/-- No pattern that is tried before that of enums is found on the opening line of an enum. -/
theorem EnumOpening.noEarlier (h : EnumOpening name opening) (rest : List Char) :
    NoEarlier (opening ++ rest) := by
  obtain ⟨a, s, ha, htext⟩ := h.exists_eq rest
  have hpasses : ∀ p, PassesOver 'e' p → p.find? (opening ++ rest) = none := fun p hp => by
    rw [htext]
    exact hp.find?_eq_none (by decide) ha.isBlank _
  refine ⟨hpasses _ (by decide), ?_, ?_, hpasses _ (by decide), hpasses _ (by decide),
    hpasses _ (by decide), hpasses _ (by decide)⟩
  · have hfront : ('e' :: blankChars).all (fun x => classNameClause.front x = .nothing) = true := by
      decide
    obtain ⟨x, hx, hhead⟩ := exists_head?_of_blanks (u := []) (v := opening ++ rest) (by simp)
      ha.isBlank (c := 'e') (by decide) htext
    obtain ⟨post, hpost⟩ := List.head?_eq_some_iff.mp hhead
    rw [find?_of_isAnchored (by decide), matchAt?_eq_none_iff, hpost]
    exact not_starts_of_front (of_decide_eq_true (List.all_eq_true.mp hfront x hx))
  · rw [find?_of_isAnchored (by decide), matchAt?_eq_none_iff, htext]
    rintro ⟨_, post, _, hw, _, _, _, _, rfl, -, ⟨_, _, _, _, rfl, -, ⟨_, _, _, _, rfl, -,
      ⟨rfl, -, -⟩, hword⟩, -⟩, -⟩
    obtain ⟨rfl, -⟩ := accepts_lit.mp hword
    cases a with
    | nil => simp at hw
    | cons d a =>
        obtain ⟨rfl, -⟩ := List.cons.inj hw
        exact absurd (ha _ List.mem_cons_self).1 (by decide)

/-- The part of the pattern of enums before the opening brace. -/
def enumStart : Pattern :=
  .atStart ++ .group 1 blanks ++ lit "enum" ++ blanks ++ .opt (.group 2 ident) ++ blanks

theorem enumHeader_eq : enumHeader =
    enumStart ++ .char '\x7b' ++ .group 3 (.star .any) ++ .atEnd := rfl

theorem EnumOpening.accepts (h : EnumOpening name opening) (post : List Char) :
    ∃ gs, enumStart.Accepts [] opening post gs := by
  have hblanks : ∀ {s : List Char}, IsSpace s → ∀ pre post, blanks.Accepts pre s post [] :=
    fun hs _ _ => accepts_blanks.mpr ⟨hs.isBlank, rfl⟩
  cases h with
  | of s₁ s₂ s₃ space₁ space₂ ne_nil hident space₃ =>
      have hindent : ∀ post, (atStart ++ group 1 blanks).Accepts [] s₁ post [(1, ⟨0, s₁⟩)] := fun _ =>
        accepts_atStart_append.mpr ⟨rfl, accepts_group.mpr ⟨[], hblanks space₁ _ _, rfl⟩⟩
      have hword : ∀ pre post, (lit "enum").Accepts pre "enum".toList post [] :=
        fun _ _ => accepts_lit.mpr ⟨rfl, rfl⟩
      have hname : ∀ pre post,
          (opt (group 2 ident)).Accepts pre name post [(2, ⟨width pre, name⟩)] := fun _ _ =>
        accepts_opt.mpr (.inl (accepts_group.mpr ⟨[], accepts_ident.mpr ⟨hident, rfl⟩, rfl⟩))
      exact ⟨_, ((((hindent _).append (hword _ _)).append (hblanks space₂ _ _)).append
        (hname _ _)).append (hblanks space₃ _ post)⟩

theorem brace_not_mem_of_accepts {pre w post : List Char} {gs : List (Nat × Span)}
    (h : enumStart.Accepts pre w post gs) : '\x7b' ∉ w := by
  have hblanks : ∀ {u : List Char}, (∀ d ∈ u, isBlank d = true) → '\x7b' ∉ u :=
    not_mem_of_blanks (by decide)
  obtain ⟨_, s₃, _, _, rfl, -, ⟨_, n, _, _, rfl, -, ⟨_, s₂, _, _, rfl, -, ⟨s₁, word, _, _, rfl, -,
    hstart, hword⟩, hs₂⟩, hn⟩, hs₃⟩ := h
  obtain ⟨b, hs₁, -⟩ := accepts_group.mp (accepts_atStart_append.mp hstart).2
  obtain ⟨rfl, -⟩ := accepts_lit.mp hword
  have hname : '\x7b' ∉ n := by
    rcases hn with ⟨_, hident, -⟩ | ⟨rfl, -⟩
    · intro hmem
      exact absurd (isIdentChar_of_isIdent (accepts_ident.mp hident).1 _ hmem) (by decide)
    · simp
  simp [hblanks (accepts_blanks.mp hs₁).1, hblanks (accepts_blanks.mp hs₂).1, hname,
    hblanks (accepts_blanks.mp hs₃).1]

/-- The pattern of enums is found on the opening line, and its last group is what follows the
brace. -/
theorem EnumOpening.exists_find? (h : EnumOpening name opening) {body : List Char}
    (hbody : '\n' ∉ body) :
    ∃ m, enumHeader.find? (opening ++ '\x7b' :: body) = some m ∧ m.group 3 = body := by
  have hstarts : enumHeader.Starts [] (opening ++ '\x7b' :: body) := by
    obtain ⟨gs, hacc⟩ := h.accepts (['\x7b'] ++ (body ++ []))
    have hbrace : (char '\x7b').Accepts opening ['\x7b'] (body ++ []) [] :=
      accepts_char.mpr ⟨rfl, rfl⟩
    have hany : (star any).Accepts (opening ++ ['\x7b']) body [] [] :=
      (accepts_star fun _ _ _ _ => accepts_any).mpr ⟨fun c hc hfeed => hbody (hfeed ▸ hc), rfl⟩
    have hgroup : (group 3 (star any)).Accepts (opening ++ ['\x7b']) body [] _ := ⟨[], hany, rfl⟩
    have hall := (hacc.append hbrace).append hgroup
    exact ⟨_, [], _, by simp, accepts_append_atEnd.mpr ⟨hall, rfl⟩⟩
  rw [find?_of_isAnchored (by decide)]
  obtain ⟨m, hm⟩ := Option.isSome_iff_exists.mp (matchAt?_isSome_iff.mpr hstarts)
  refine ⟨m, hm, ?_⟩
  obtain ⟨w, rest, gs, htext, hacc, rfl⟩ := exists_accepts_of_matchAt? hm
  rw [enumHeader_eq, accepts_append_atEnd] at hacc
  obtain ⟨⟨u, v, gu, gv, rfl, rfl, hu, hv⟩, rfl⟩ := hacc
  rw [accepts_append_of_right fun _ _ _ _ => accepts_char] at hu
  obtain ⟨u, _, rfl, hu, rfl⟩ := hu
  obtain ⟨_, hany, rfl⟩ := accepts_group.mp hv
  have hbrace : '\x7b' ∉ opening := h.not_mem (by decide)
  have htail : v = body := by
    refine (eq_of_append_cons hbrace (brace_not_mem_of_accepts hu) ?_).symm
    simpa using htext
  obtain ⟨-, rfl⟩ := (accepts_star fun _ _ _ _ => accepts_any).mp hany
  rw [← htail]
  rfl

theorem trimEnd_append_cons (hc : isBlank c = false) (s t : List Char) :
    trimEnd (s ++ c :: t) = s ++ c :: trimEnd t := by
  have hblank : isAllBlank (c :: t) = false := by simp [isAllBlank, hc]
  rw [trimEnd_append s hblank, trimEnd, dropEndWhile_cons hc, ← trimEnd]

/-- The line that opens an enum declares it, with the values that stand behind the brace. -/
theorem EnumOpening.exists_readLine (h : EnumOpening name opening) {rest : List Char}
    (hfeed : '\n' ∉ Line.code rest) (functions : List Function) {s : Declared}
    (hs : s.openEnum = none) (n : Nat) :
    ∃ name? body indent, enumValues body = enumValues (Line.code rest) ∧
      s.readLine functions (opening ++ '\x7b' :: rest, n) =
        { s.add (enumDeclarations name? body n indent) with
          openEnum := if (Line.code rest).contains '\x7d' then none else some indent } := by
  have hcode : trimEnd (Line.code (opening ++ '\x7b' :: rest)) =
      opening ++ '\x7b' :: trimEnd (Line.code rest) := by
    rw [code_append_of_stops fun c hc => h.not_mem hc]
    exact trimEnd_append_cons (by decide) opening (Line.code rest)
  have hblank : isAllBlank (opening ++ '\x7b' :: trimEnd (Line.code rest)) = false := by
    simp [isAllBlank, show isBlank '\x7b' = false from by decide]
  obtain ⟨space, hspace, hblanks⟩ := exists_trimEnd_append (Line.code rest)
  have hfeed : '\n' ∉ trimEnd (Line.code rest) := fun hmem =>
    hfeed (hspace ▸ List.mem_append_left space hmem)
  obtain ⟨m, hm, hgroup⟩ := h.exists_find? hfeed
  have hvalues : enumValues (trimEnd (Line.code rest)) = enumValues (Line.code rest) := by
    conv_rhs => rw [hspace]
    exact (enumValues_append_blanks hblanks _).symm
  have hbrace : (trimEnd (Line.code rest)).contains '\x7d' = (Line.code rest).contains '\x7d' := by
    conv_rhs => rw [hspace]
    simp [not_mem_of_blanks (c := '\x7d') (by decide) hblanks]
  have hread : s.readLine functions (opening ++ '\x7b' :: rest, n) = _ :=
    Declared.readLine_of_none hs (by rwa [hcode])
  rw [hcode, readCode_of_enumHeader (h.noEarlier _) hm, hgroup, hbrace] at hread
  exact ⟨_, _, _, hvalues, hread⟩

/-- **The lines of an enum are read to their end**, and add nothing but the declarations of the enum:
its values are the items. Annotations that wait are dropped. -/
theorem EnumLayout.exists_readLines (h : EnumLayout name items lines) (functions : List Function)
    {s : Declared} (hs : s.openEnum = none) (n : Nat) :
    ∃ ds, OfEnums n lines.length (items.map (str ·.name)) ds ∧
      s.readLines functions n lines =
        { s with declarations := s.declarations ++ ds, pending := [], openEnum := none } := by
  obtain ⟨opening, rest, hopening, body⟩ := h
  obtain ⟨name?, text, indent, hvalues, hread⟩ :=
    hopening.exists_readLine body.feed_not_mem functions hs n
  have hds := OfEnums.enumDeclarations name? text n indent
  rw [hvalues] at hds
  have hcompletes := body.completes
  unfold Completes at hcompletes
  rw [Declared.readLines_cons, hread]
  split_ifs at hcompletes ⊢ with hclosed
  · obtain ⟨rfl, hnames⟩ := hcompletes
    rw [hnames]
    exact ⟨_, hds, rfl⟩
  · obtain ⟨names', hnames, hbelow⟩ := hcompletes
    obtain ⟨ds', hds', hlater⟩ := hbelow functions { s.add (enumDeclarations _ _ n _) with
      openEnum := some indent } (n + 1) _ rfl
    rw [hlater, hnames, List.length_cons, Nat.add_comm]
    exact ⟨_, hds.append hds', by simp [Declared.add]⟩

/-- The lines of an enum name its items. -/
theorem EnumLayout.naming (h : EnumLayout name items lines) :
    Naming false lines (items.map (str ·.name)) false := by
  intro functions s n hs
  obtain ⟨ds, hds, hread⟩ := h.exists_readLines functions (by simpa using hs) n
  rw [hread]
  exact ⟨rfl, ds, hds, enumValuesOf_append _ _⟩

/-! ## An enum on one line, and one on five -/

/-- The text of an item on one line. -/
def EnumItem.plainText (item : EnumItem) : List Char :=
  ' ' :: item.name ++ match item.value? with
    | none => []
    | some v => ' ' :: '=' :: ' ' :: v

/-- The items of an enum on one line, and the closing brace. -/
def lineOfItems : List EnumItem → List Char
  | [] => [' ', '\x7d']
  | [item] => item.plainText ++ [' ', '\x7d']
  | item :: items => item.plainText ++ ',' :: lineOfItems items

/-- An enum on one line. -/
def lineOfEnum (name : List Char) (items : List EnumItem) : List Char :=
  "enum ".toList ++ name ++ [' ', '\x7b'] ++ lineOfItems items

theorem isSpace_space : IsSpace [' '] := by simp [IsSpace, Text.isBlank]

theorem EnumItem.written_plainText (item : EnumItem) : item.Written item.plainText := by
  unfold EnumItem.plainText
  cases hvalue : item.value? with
  | none => exact .bare [' '] [] isSpace_space (by simp [IsSpace]) hvalue
  | some v =>
      have := EnumItem.Written.valued [' '] [' '] [' '] [] isSpace_space isSpace_space isSpace_space
        (by simp [IsSpace]) hvalue
      simpa using this

theorem enumBody_lineOfItems (items : List EnumItem) : EnumBody items (lineOfItems items) [] := by
  have hclose : EnumBody [] [' ', '\x7d'] [] :=
    .close [' '] [] isSpace_space ⟨[], [], rfl, by simp [IsSpace], .inl rfl⟩
  induction items with
  | nil => exact hclose
  | cons item items ih =>
      cases items with
      | nil => exact .last _ _ item.written_plainText hclose
      | cons next items => exact .item _ _ item.written_plainText ih

theorem enumLayout_lineOfEnum (hname : isIdent name = true) (items : List EnumItem) :
    EnumLayout name items [lineOfEnum name items] := by
  have hopening : EnumOpening name ([] ++ "enum".toList ++ [' '] ++ name ++ [' ']) :=
    .of [] [' '] [' '] (by simp [IsSpace]) isSpace_space (by simp) hname isSpace_space
  have hline : ∀ word : List Char, word ++ [' '] ++ name ++ [' ', '\x7b'] ++ lineOfItems items =
      ([] ++ word ++ [' '] ++ name ++ [' ']) ++ '\x7b' :: lineOfItems items := by simp
  have hlayout := EnumLayout.of _ _ hopening (enumBody_lineOfItems items)
  rwa [← hline] at hlayout

/-- An item that an ASCII identifier names, without a value. -/
def EnumItem.ofIdent (name : List Char) (h : isIdent name = true) : EnumItem where
  name
  name_ne_nil := ne_nil_of_isIdent h
  name_chars := fun c hc => by
    have hident := isIdentChar_of_isIdent h c hc
    rw [isAlphanumeric, if_pos (isAscii_of_isIdentChar hident)]
    simpa [isIdentChar] using hident
  value_chars := by simp

/-- Two states, the first with a number. -/
def states : List EnumItem :=
  [{ EnumItem.ofIdent ['A'] rfl with value? := some ['1'], value_chars := by simp [itemStops] },
    .ofIdent ['B'] rfl]

/-- The states over five lines, one of them blank, with two comments. -/
def stateLines : List (List Char) :=
  ["enum State \x7b # states".toList, "\tA = 1,".toList, [], "\tB # last".toList, ['\x7d']]

theorem enumLayout_stateLines : EnumLayout "State".toList states stateLines := by
  have hnil : IsSpace [] := by simp [IsSpace]
  have htab : IsSpace ['\t'] := by simp [IsSpace, Text.isBlank]
  have hfirst : (states[0]).Written "\tA = 1".toList :=
    EnumItem.Written.valued (v := ['1']) ['\t'] [' '] [' '] [] htab isSpace_space isSpace_space hnil rfl
  have hlast : (states[1]).Written "\tB".toList := EnumItem.Written.bare ['\t'] [] htab hnil rfl
  have hend : IsLineTail [] := ⟨[], [], rfl, hnil, .inl rfl⟩
  have hcomment : ∀ s, IsLineTail (" #".toList ++ s) := fun s =>
    ⟨[' '], _, rfl, isSpace_space, .inr ⟨s, rfl⟩⟩
  have hclose : EnumBody [] ['\x7d'] [] := .close [] [] hnil hend
  refine .of "enum State ".toList " # states".toList ?_ ?_
  · exact .of [] [' '] [' '] hnil isSpace_space (by simp) (by decide) isSpace_space
  refine .break _ (hcomment _) (.item _ [] hfirst (.break _ hend (.break _ hend ?_)))
  exact .last _ " # last".toList hlast (.break _ (hcomment _) hclose)

/-! ## Layout does not matter -/

/-- Blank lines declare nothing. -/
theorem Declared.readLines_replicate (functions : List Function) {s : Declared} (hs : s.openEnum = none)
    (n count : Nat) : s.readLines functions n (List.replicate count []) = s := by
  induction count generalizing n with
  | zero => rfl
  | succ count ih =>
      rw [List.replicate_succ, Declared.readLines_cons, Declared.readLine_of_blank hs rfl, ih]

/-- A statement that declares nothing drops the annotations that wait. -/
theorem Declared.readLine_pass (functions : List Function) {s : Declared} (hs : s.openEnum = none)
    (n : Nat) : s.readLine functions ("pass".toList, n) = { s with pending := [] } := by
  have hcode : trimEnd (Line.code "pass".toList) = "pass".toList := by decide
  have hearlier : NoEarlier "pass".toList := by constructor <;> decide
  rw [Declared.readLine_of_none hs (by decide), hcode, readCode_of_none hearlier (by decide)]

/-- The declarations of an enum are put in among the others: outside of its lines, a script declares
what it does with any lines in their place that do nothing but drop the annotations that wait. -/
theorem EnumLayout.agreeOutside (h : EnumLayout name items lines) {above : List (List Char)}
    {functions : List Function} {s : Declared} {instead : List (List Char)}
    (habove : s = Declared.readLines functions
      { declarations := functions.map functionDeclaration } 1 above)
    (hopen : s.openEnum = none) (hlength : instead.length = lines.length)
    (hinstead : s.readLines functions (1 + above.length) instead = { s with pending := [] })
    (below : List (List Char)) :
    AgreeOutside above.length (above.length + lines.length)
      (declared (above ++ lines ++ below) functions)
      (declared (above ++ instead ++ below) functions) := by
  have hsplit : ∀ own, own.length = lines.length → declared (above ++ own ++ below) functions =
      ((s.readLines functions (1 + above.length) own).readLines functions
        (1 + (above.length + lines.length)) below).sorted := by
    intro own hown
    rw [declared_eq, Declared.readLines_append, Declared.readLines_append, List.length_append, hown,
      ← habove]
  obtain ⟨ds, hds, hread⟩ := h.exists_readLines functions hopen (1 + above.length)
  have hinserts : Inserts ds { s with pending := [] }
      { s with declarations := s.declarations ++ ds, pending := [], openEnum := none } :=
    ⟨s.declarations, [], by simp, by simp [hopen]⟩
  have hkind : ∀ d ∈ ds, d.kind ≠ .scriptClass := fun d hd => by
    rcases hds.kind d hd with h | h <;> simp [h]
  rw [hsplit lines rfl, hsplit instead hlength, hread, hinstead]
  refine (hinserts.readLines hkind functions _ below).agreeOutside fun d hd => ?_
  have := hds.line d hd
  omega

/-- **The layout of an enum does not matter** where no body of an enum is open above it. The values are
those of the enum on one line: what the lines above and below name, with the items in between. And what
else the script declares is what it declares with a statement that declares nothing in place of the enum,
or with no statement there if no annotations wait. -/
theorem enumLayout_irrelevant (h : EnumLayout name items lines) (above below : List (List Char))
    (functions : List Function) (hopen : (declared above functions).openEnum = none) :
    (∀ functions', (declared (above ++ lines ++ below) functions).valueNames =
      (declared (above ++ [lineOfEnum name items] ++ below) functions').valueNames) ∧
    (declared (above ++ lines ++ below) functions).valueNames =
      (declared above functions).valueNames ++ items.map (str ·.name) ++
        (declared below functions).valueNames ∧
    AgreeOutside above.length (above.length + lines.length)
      (declared (above ++ lines ++ below) functions)
      (declared (above ++ "pass".toList :: List.replicate (lines.length - 1) [] ++ below) functions) ∧
    ((declared above functions).pending = [] →
      AgreeOutside above.length (above.length + lines.length)
        (declared (above ++ lines ++ below) functions)
        (declared (above ++ List.replicate lines.length [] ++ below) functions)) := by
  obtain ⟨names, isOpen, habove⟩ := exists_naming false above
  obtain ⟨names', isOpen', hbelow⟩ := exists_naming false below
  obtain rfl : isOpen = false := by rw [← (habove.declared functions).2, hopen]; rfl
  have hall : ∀ {lines functions}, EnumLayout name items lines →
      (declared (above ++ lines ++ below) functions).valueNames =
        names ++ items.map (str ·.name) ++ names' :=
    fun hlayout => (((habove.append hlayout.naming).append hbelow).declared _).1
  have hname : isIdent name = true := by
    obtain ⟨_, _, ⟨_, _, _, -, -, -, hname, -⟩, -⟩ := h
    exact hname
  have hpositive : lines ≠ [] := by
    obtain ⟨_, _, -, -⟩ := h
    simp
  obtain ⟨s, hs⟩ : ∃ s, s = Declared.readLines functions
    { declarations := functions.map functionDeclaration } 1 above := ⟨_, rfl⟩
  have hnone : s.openEnum = none := by
    rw [hs]
    exact hopen
  refine ⟨fun functions' => ?_, ?_, ?_, fun hpending => ?_⟩
  · rw [hall h, hall (enumLayout_lineOfEnum hname items)]
  · rw [hall h, (habove.declared functions).1, (hbelow.declared functions).1]
  · refine h.agreeOutside hs hnone ?_ ?_ below
    · have := List.length_pos_of_ne_nil hpositive
      simp only [List.length_cons, List.length_replicate]
      omega
    · rw [Declared.readLines_cons, Declared.readLine_pass functions hnone]
      exact Declared.readLines_replicate functions (s := { s with pending := [] }) hnone _ _
  · refine h.agreeOutside hs hnone List.length_replicate ?_ below
    have hwaits : s.pending = [] := by
      rw [hs]
      exact hpending
    rw [Declared.readLines_replicate functions hnone, ← hwaits]

theorem enumLayout_irrelevant_states :
    EnumLayout "State".toList states stateLines ∧ (declared [] []).openEnum = none ∧
      (declared (stateLines ++ ["var x".toList]) []).valueNames = ["A", "B"] ∧
      AgreeOutside 0 5 (declared (stateLines ++ ["var x".toList]) [])
        (declared (List.replicate 5 [] ++ ["var x".toList]) []) := by
  obtain ⟨-, hnames, -, hagree⟩ :=
    enumLayout_irrelevant enumLayout_stateLines [] ["var x".toList] [] rfl
  refine ⟨enumLayout_stateLines, rfl, hnames.trans ?_, hagree rfl⟩
  decide +kernel

/-- Neither holds without the conditions: in an enum body that is open above, the line that opens an
enum is read as values, and an annotation that waits above an enum is not for the variable below. -/
theorem not_forall_enumLayout_irrelevant :
    (¬ ∀ name items lines above below functions, EnumLayout name items lines →
      (declared (above ++ lines ++ below) functions).valueNames =
        (declared (above ++ [lineOfEnum name items] ++ below) functions).valueNames) ∧
    ¬ ∀ name items lines above below functions, EnumLayout name items lines →
      AgreeOutside above.length (above.length + lines.length)
        (declared (above ++ lines ++ below) functions)
        (declared (above ++ List.replicate lines.length [] ++ below) functions) := by
  constructor
  · intro h
    have hnames := h _ _ _ ["enum E \x7b".toList] [] [] enumLayout_stateLines
    revert hnames
    decide +kernel
  · intro h
    have hagree := (h _ _ _ ["@export".toList] ["var x = 1".toList] [] enumLayout_stateLines).declarations
    revert hagree
    decide +kernel

end Script

end GodotLint
