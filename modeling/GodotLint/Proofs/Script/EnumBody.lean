import GodotLint.Proofs.Line.Indentation
import GodotLint.Proofs.Script.Declarations
import GodotLint.Proofs.Text.CharTable

/-!
# The body of an enum

The items of an enum may stand on one line or on many: a line may break before an item and before the
closing brace, and ends in blanks and perhaps a comment. `EnumBody` has one rule for each thing that may
come next. The reader takes one line of the body after the other, cuts it at the commas and the closing
brace, and keeps of each piece what stands before an equals sign. The blanks at both ends of a line give
no name, and the characters of a name are none that it cuts at, so what it reads of a body is the names of
the items, in their order, and the body is closed below (`EnumBody.completes`). The proof follows the
rules of `EnumBody`: for each, what the line gives, and then what the lines below give.
-/

namespace GodotLint

open Text

namespace Line

/-- Text without quotation marks and comment marks belongs to the code. -/
theorem code_append_of_plain {a : List Char} (ha : ∀ c ∈ a, ¬ Quoting.IsMark c ∧ c ≠ '#')
    (s : List Char) : code (a ++ s) = a ++ code s := by
  obtain ⟨b, rest, rfl, hb, hrest⟩ := exists_cutComment .outside s
  have hread := Quoting.read_outside fun c hc => (ha c hc).1
  rw [code_append_of hb hrest, ← List.append_assoc]
  refine code_append_of (everywhere_append.mpr ⟨?_, ?_⟩) ?_
  · exact everywhere_outside (fun c hc => (ha c hc).1) fun c hc h => (ha c hc).2 h.2
  · rwa [hread]
  · rwa [Quoting.read_append, hread]

end Line

namespace Script

/-! ## Ways to write an enum -/

/-- Blanks within a line. -/
def IsSpace (s : List Char) : Prop := ∀ c ∈ s, isBlank c = true ∧ c ≠ '\n'

/-- The end of a line: blanks, and perhaps a comment. -/
def IsLineTail (s : List Char) : Prop :=
  ∃ space rest, s = space ++ rest ∧ IsSpace space ∧ (rest = [] ∨ ∃ comment, rest = '#' :: comment)

/-- Characters that no item contains: the comma, braces, quotation marks, the comment mark and the
line feed. -/
def itemStops : List Char := [',', '\x7b', '\x7d', '"', '\x27', '#', '\n']

/-- An item of an enum: a name, and perhaps the text of a value. -/
structure EnumItem where
  name : List Char
  value? : Option (List Char) := none
  name_ne_nil : name ≠ []
  name_chars : ∀ c ∈ name, isAlphanumeric c = true ∨ c = '_'
  value_chars : ∀ v ∈ value?, ∀ c ∈ v, c ∉ itemStops

/-- The texts of an item: its name, and an equals sign and its value if there is one, with any
blanks around them. -/
inductive EnumItem.Written (item : EnumItem) : List Char → Prop
  | bare (s₁ s₂ : List Char) (space₁ : IsSpace s₁) (space₂ : IsSpace s₂)
      (value : item.value? = none) : Written item (s₁ ++ item.name ++ s₂)
  | valued (s₁ s₂ s₃ s₄ : List Char) {v : List Char} (space₁ : IsSpace s₁) (space₂ : IsSpace s₂)
      (space₃ : IsSpace s₃) (space₄ : IsSpace s₄) (value : item.value? = some v) :
      Written item (s₁ ++ item.name ++ s₂ ++ '=' :: (s₃ ++ v ++ s₄))

/-- What follows the opening brace, or a comma: the rest of the line and the lines below, up to the
line of the closing brace. A line may break before an item and before the closing brace. -/
inductive EnumBody : List EnumItem → List Char → List (List Char) → Prop
  | close (space tail : List Char) (hspace : IsSpace space) (htail : IsLineTail tail) :
      EnumBody [] (space ++ '\x7d' :: tail) []
  | break (tail : List Char) {items : List EnumItem} {rest : List Char} {below : List (List Char)}
      (htail : IsLineTail tail) (body : EnumBody items rest below) : EnumBody items tail (rest :: below)
  | item (text rest : List Char) {item : EnumItem} {items : List EnumItem} {below : List (List Char)}
      (written : item.Written text) (body : EnumBody items rest below) :
      EnumBody (item :: items) (text ++ ',' :: rest) below
  | last (text rest : List Char) {item : EnumItem} {below : List (List Char)}
      (written : item.Written text) (body : EnumBody [] rest below) :
      EnumBody [item] (text ++ rest) below

variable {s text rest : List Char} {below : List (List Char)} {item : EnumItem} {items : List EnumItem}
  {names : List String} {c : Char}

/-! ## Text before a character -/

theorem before_append_of_not_mem (hc : c ∉ s) (t : List Char) :
    before (· == c) (s ++ t) = s ++ before (· == c) t := by
  refine List.takeWhile_append_of_pos fun d hd => ?_
  rw [Bool.not_eq_true', beq_eq_false_iff_ne]
  rintro rfl
  exact hc hd

theorem before_of_not_mem (hc : c ∉ s) : before (· == c) s = s := by
  have hall := before_append_of_not_mem hc []
  rwa [List.append_nil, show before (· == c) [] = [] from rfl, List.append_nil] at hall

theorem before_append_cons (hc : c ∉ s) (t : List Char) : before (· == c) (s ++ c :: t) = s := by
  rw [before_append_of_not_mem hc, before, List.takeWhile_cons_of_neg (by simp), List.append_nil]

theorem before_append_of_mem (hc : c ∈ s) (t : List Char) :
    before (· == c) (s ++ t) = before (· == c) s := by
  obtain ⟨u, v, rfl, hu⟩ := List.eq_append_cons_of_mem hc
  rw [List.append_assoc, List.cons_append, before_append_cons hu, before_append_cons hu]

/-- Blanks behind a text are not cut off from it. -/
theorem before_append_blanks (hc : isBlank c = false) (hs : ∀ d ∈ s, isBlank d = true)
    (t : List Char) : ∃ s', (∀ d ∈ s', isBlank d = true) ∧
      before (· == c) (t ++ s) = before (· == c) t ++ s' := by
  by_cases hmem : c ∈ t
  · exact ⟨[], by simp, by rw [before_append_of_mem hmem, List.append_nil]⟩
  · refine ⟨s, hs, ?_⟩
    have hnot : c ∉ s := fun hmem => by rw [hs c hmem] at hc; cases hc
    rw [before_append_of_not_mem hmem, before_of_not_mem hmem, before_of_not_mem hnot]

/-! ## Items -/

theorem IsSpace.isBlank (h : IsSpace s) : ∀ c ∈ s, isBlank c = true := fun c hc => (h c hc).1

theorem IsSpace.not_mem_stops (h : IsSpace s) : ∀ c ∈ s, c ∉ itemStops := by
  have hstops : (itemStops.all fun d => !Text.isBlank d || d == '\n') = true := by decide
  intro c hc hstop
  obtain ⟨hblank, hfeed⟩ := h c hc
  have := List.all_eq_true.mp hstops c hstop
  simp [hblank, hfeed] at this

/-- No blank is a character that is not blank. -/
theorem not_mem_of_blanks (hc : isBlank c = false) (hs : ∀ d ∈ s, isBlank d = true) : c ∉ s := by
  intro hmem
  rw [hs c hmem] at hc
  cases hc

/-- The characters of a name end no item, stand around no value and are not blank. -/
theorem EnumItem.plain_of_mem_name (item : EnumItem) :
    ∀ c ∈ item.name, c ∉ '=' :: itemStops ∧ isBlank c = false := by
  intro c hc
  have hstops : (('=' :: itemStops).all fun d => !isAlphanumeric d && d != '_') = true := by decide
  constructor
  · intro hstop
    have := List.all_eq_true.mp hstops c hstop
    rcases item.name_chars c hc with h | h <;> simp [h] at this
  · rcases item.name_chars c hc with h | rfl
    · rw [Bool.eq_false_iff]
      intro hblank
      rw [isAlphanumeric_of_isBlank hblank] at h
      cases h
    · decide

theorem EnumItem.not_mem_name (item : EnumItem) (hc : c ∈ '=' :: itemStops) : c ∉ item.name :=
  fun hmem => (item.plain_of_mem_name c hmem).1 hc

/-- An item contains none of the characters that end items. -/
theorem EnumItem.Written.not_mem (h : item.Written text) (hc : c ∈ itemStops) : c ∉ text := by
  have hname : c ∉ item.name := item.not_mem_name (List.mem_cons_of_mem _ hc)
  have hspace : ∀ {s : List Char}, IsSpace s → c ∉ s := fun hs hmem => hs.not_mem_stops c hmem hc
  cases h with
  | bare s₁ s₂ space₁ space₂ value => simp [hname, hspace space₁, hspace space₂]
  | @valued s₁ s₂ s₃ s₄ v space₁ space₂ space₃ space₄ value =>
      have hvalue : c ∉ v := fun hmem => item.value_chars v value c hmem hc
      have heq : c ≠ '=' := by
        rintro rfl
        exact absurd hc (by decide)
      simp [hname, hspace space₁, hspace space₂, hspace space₃, hspace space₄, hvalue, heq]

/-- The name that an item of an enum body gives, if it gives one. -/
def valueName? (item : List Char) : Option String :=
  let name := trim (before (· == '=') item)
  if !name.isEmpty && name.all (fun c => isAlphanumeric c || c == '_') then some (str name) else none

theorem enumValues_eq (s : List Char) :
    enumValues s = (splitAt ',' (before (· == '\x7d') s)).filterMap valueName? := rfl

/-- Blanks behind an item do not change the name that it gives. -/
theorem valueName?_append_blanks (hs : ∀ c ∈ s, isBlank c = true) (text : List Char) :
    valueName? (text ++ s) = valueName? text := by
  obtain ⟨s', hs', hbefore⟩ := before_append_blanks (c := '=') (by decide) hs text
  rw [valueName?, hbefore, trim_append_blanks hs', valueName?]

/-- Blanks give no name. -/
theorem valueName?_of_blanks (hs : ∀ c ∈ s, isBlank c = true) : valueName? s = none :=
  valueName?_append_blanks hs []

/-- An item gives its name. -/
theorem EnumItem.Written.valueName? (h : item.Written text) :
    Script.valueName? text = some (str item.name) := by
  have hspace : ∀ {s : List Char}, IsSpace s → '=' ∉ s :=
    fun hs => not_mem_of_blanks (by decide) hs.isBlank
  have hname : '=' ∉ item.name := item.not_mem_name List.mem_cons_self
  have hbefore : ∃ s₁ s₂, IsSpace s₁ ∧ IsSpace s₂ ∧
      before (· == '=') text = s₁ ++ item.name ++ s₂ := by
    cases h with
    | bare s₁ s₂ space₁ space₂ value =>
        refine ⟨s₁, s₂, space₁, space₂, before_of_not_mem ?_⟩
        simp [hname, hspace space₁, hspace space₂]
    | @valued s₁ s₂ s₃ s₄ v space₁ space₂ space₃ space₄ value =>
        refine ⟨s₁, s₂, space₁, space₂, before_append_cons ?_ _⟩
        simp [hname, hspace space₁, hspace space₂]
  obtain ⟨s₁, s₂, space₁, space₂, hbefore⟩ := hbefore
  have hchars : item.name.all (fun c => isAlphanumeric c || c == '_') = true :=
    List.all_eq_true.mpr fun c hc => by simpa using item.name_chars c hc
  rw [Script.valueName?, hbefore, trim_of_blanks space₁.isBlank
    (fun c hc => (item.plain_of_mem_name c hc).2) space₂.isBlank]
  simp [hchars, item.name_ne_nil]

/-! ## The values on a line -/

/-- An item and a comma give the name of the item, and then what follows gives its names. -/
theorem enumValues_item (h : item.Written text) (rest : List Char) :
    enumValues (text ++ ',' :: rest) = str item.name :: enumValues rest := by
  have hbrace : '\x7d' ∉ text ++ [','] := by simp [h.not_mem (c := '\x7d') (by decide)]
  rw [enumValues_eq, List.append_cons, before_append_of_not_mem hbrace, List.append_assoc,
    List.singleton_append, splitAt_append_cons (h.not_mem (by decide)), List.filterMap_cons,
    h.valueName?, enumValues_eq]

/-- The last item, with only blanks behind it on the line and before a closing brace. -/
theorem enumValues_last (h : item.Written text)
    (hrest : ∀ c ∈ before (· == '\x7d') rest, isBlank c = true) :
    enumValues (text ++ rest) = [str item.name] := by
  have hcomma : ',' ∉ text ++ before (· == '\x7d') rest := by
    simp [h.not_mem (c := ',') (by decide), not_mem_of_blanks (c := ',') (by decide) hrest]
  rw [enumValues_eq, before_append_of_not_mem (h.not_mem (by decide)), splitAt_of_not_mem hcomma,
    List.filterMap_cons, valueName?_append_blanks hrest, h.valueName?, List.filterMap_nil]

/-- Blanks before a closing brace give no names. -/
theorem enumValues_of_blanks (h : ∀ c ∈ before (· == '\x7d') s, isBlank c = true) :
    enumValues s = [] := by
  rw [enumValues_eq, splitAt_of_not_mem (not_mem_of_blanks (by decide) h), List.filterMap_cons,
    valueName?_of_blanks h, List.filterMap_nil]

/-- Blanks at the end of a line give no names. -/
theorem enumValues_append_blanks (hs : ∀ c ∈ s, isBlank c = true) (text : List Char) :
    enumValues (text ++ s) = enumValues text := by
  obtain ⟨s', hs', hbefore⟩ := before_append_blanks (c := '\x7d') (by decide) hs text
  rw [enumValues_eq, hbefore, enumValues_eq]
  induction before (· == '\x7d') text using induction_cuts ',' with
  | last u hu =>
      have hcomma : ',' ∉ u ++ s' := by simp [hu, not_mem_of_blanks (c := ',') (by decide) hs']
      rw [splitAt_of_not_mem hcomma, splitAt_of_not_mem hu, List.filterMap_cons, List.filterMap_cons,
        valueName?_append_blanks hs']
  | piece l u hl ih =>
      rw [List.append_assoc, List.cons_append, splitAt_append_cons hl, splitAt_append_cons hl,
        List.filterMap_cons, List.filterMap_cons, ih]

/-! ## The code of the lines -/

/-- Text that has none of the characters that end items belongs to the code. -/
theorem code_append_of_stops (h : ∀ c ∈ itemStops, c ∉ text) (s : List Char) :
    Line.code (text ++ s) = text ++ Line.code s := by
  refine Line.code_append_of_plain (fun c hc => ⟨?_, ?_⟩) s
  · rintro (rfl | rfl)
    · exact h _ (by decide) hc
    · exact h _ (by decide) hc
  · rintro rfl
    exact h _ (by decide) hc

theorem IsLineTail.isSpace_code (h : IsLineTail s) : IsSpace (Line.code s) := by
  obtain ⟨space, rest, rfl, hspace, hrest⟩ := h
  have hcode : Line.code rest = [] := by
    rcases hrest with rfl | ⟨comment, rfl⟩ <;> rfl
  rw [code_append_of_stops fun c hc hmem => hspace.not_mem_stops c hmem hc, hcode, List.append_nil]
  exact hspace

theorem EnumItem.Written.code_append (h : item.Written text) (s : List Char) :
    Line.code (text ++ s) = text ++ Line.code s := code_append_of_stops (fun _ hc => h.not_mem hc) s

theorem EnumItem.Written.code_append_comma (h : item.Written text) (s : List Char) :
    Line.code (text ++ ',' :: s) = text ++ ',' :: Line.code s := by
  rw [h.code_append]
  rfl

theorem code_append_brace (hs : IsSpace s) (tail : List Char) :
    Line.code (s ++ '\x7d' :: tail) = s ++ '\x7d' :: Line.code tail := by
  rw [code_append_of_stops fun c hc hmem => hs.not_mem_stops c hmem hc]
  rfl

/-- The code of a line of an enum is one line. -/
theorem EnumBody.feed_not_mem (h : EnumBody items rest below) : '\n' ∉ Line.code rest := by
  have hspace : ∀ {s : List Char}, IsSpace s → '\n' ∉ s := fun hs hmem => (hs _ hmem).2 rfl
  induction h with
  | close space tail hs htail =>
      rw [code_append_brace hs]
      simp [hspace hs, hspace htail.isSpace_code]
  | «break» tail htail _ _ => exact hspace htail.isSpace_code
  | item text rest written _ ih =>
      rw [written.code_append_comma]
      simp [written.not_mem (c := '\n') (by decide), ih]
  | last text rest written _ ih =>
      rw [written.code_append]
      simp [written.not_mem (c := '\n') (by decide), ih]

/-- Where no item is left, only blanks stand before the closing brace. -/
theorem EnumBody.isBlank_of_nil (h : EnumBody [] rest below) :
    ∀ c ∈ before (· == '\x7d') (Line.code rest), isBlank c = true := by
  cases h with
  | close space tail hs htail =>
      rw [code_append_brace hs, before_append_cons (not_mem_of_blanks (by decide) hs.isBlank)]
      exact hs.isBlank
  | «break» _ htail _ =>
      have hbrace := not_mem_of_blanks (c := '\x7d') (by decide) htail.isSpace_code.isBlank
      rw [before_of_not_mem hbrace]
      exact htail.isSpace_code.isBlank

/-! ## Reading the body -/

/-- Below an enum body that is open, the lines name `names` and then the body is closed; they add
nothing but the values. -/
def EndsEnum (lines : List (List Char)) (names : List String) : Prop :=
  ∀ functions (s : Declared) n indent, s.openEnum = some indent →
    ∃ ds, OfEnums n lines.length names ds ∧ s.readLines functions n lines =
      { s with declarations := s.declarations ++ ds, openEnum := none }

/-- The rest of a line in an enum body and the lines below name `names`, and close the body. -/
def Completes (rest : List Char) (below : List (List Char)) (names : List String) : Prop :=
  if (Line.code rest).contains '\x7d' then below = [] ∧ names = enumValues (Line.code rest)
  else ∃ names', names = enumValues (Line.code rest) ++ names' ∧ EndsEnum below names'

/-- The rest of a line may be a line of its own. -/
theorem Completes.endsEnum (h : Completes rest below names) : EndsEnum (rest :: below) names := by
  intro functions s n indent hopen
  rw [Declared.readLines_cons, Declared.readLine_of_some hopen]
  have hds := OfEnums.enumDeclarations none (Line.code rest) n indent
  unfold Completes at h
  split_ifs at h ⊢ with hbrace
  · obtain ⟨rfl, rfl⟩ := h
    exact ⟨_, hds, rfl⟩
  · obtain ⟨names', rfl, hbelow⟩ := h
    obtain ⟨ds', hds', hread⟩ := hbelow functions { s with
      declarations := s.declarations ++ enumDeclarations none (Line.code rest) n indent
      openEnum := some indent } (n + 1) indent rfl
    rw [hread, List.length_cons, Nat.add_comm]
    exact ⟨_, hds.append hds', by simp⟩

/-- **The body of an enum names its items**, however it is broken into lines, and is closed below. -/
theorem EnumBody.completes (h : EnumBody items rest below) :
    Completes rest below (items.map (str ·.name)) := by
  unfold Completes at *
  induction h with
  | close space tail hs htail =>
      have hnames := enumValues_of_blanks (EnumBody.close space tail hs htail).isBlank_of_nil
      rw [if_pos (by simp [code_append_brace hs]), hnames]
      exact ⟨rfl, rfl⟩
  | «break» tail htail _ ih =>
      have hspace := htail.isSpace_code.isBlank
      have hbrace := not_mem_of_blanks (c := '\x7d') (by decide) hspace
      have hnames : enumValues (Line.code _) = [] :=
        enumValues_of_blanks fun c hc => hspace c ((List.takeWhile_sublist _).mem hc)
      rw [if_neg (by simpa using hbrace), hnames]
      exact ⟨_, rfl, Completes.endsEnum ih⟩
  | item text rest written _ ih =>
      have hbrace := written.not_mem (c := '\x7d') (by decide)
      rw [written.code_append_comma, enumValues_item written, List.map_cons]
      simpa [hbrace] using ih
  | last text rest written body ih =>
      have hbrace := written.not_mem (c := '\x7d') (by decide)
      have hnone := enumValues_of_blanks body.isBlank_of_nil
      rw [written.code_append, enumValues_last written body.isBlank_of_nil]
      rw [hnone] at ih
      simpa [hbrace] using ih

end Script

end GodotLint
