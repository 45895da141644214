import GodotLint.Proofs.Fix.Preload
import GodotLint.Proofs.Offset.Bytes

/-!
# Whole words among the bytes of a text

A word stands alone at an offset if its bytes are there and neither the byte before them nor the one
behind them is a letter, a digit or an underscore (`StandsAloneAt`). No byte of a character outside of
ASCII is one of ASCII, so the bytes of a name occur only where the name does, between characters. The
search goes on one byte behind an occurrence that does not stand alone, so it passes no occurrence over,
and finds a name exactly if it stands alone at some offset (`containsWord_iff_exists_standsAloneAt`).

The fix of unused preloads asks this search about all lines but the one that it may remove. So whatever
other lines go with it, none that is left has the name of a removed constant as a word
(`namesAreGone_of_subset`).
-/

namespace GodotLint.Offset

open Text

/-! ## Where a word stands alone -/

/-- Bytes that belong to a word: letters, digits and underscores of ASCII. -/
def isWordByte : UInt8 → Bool := onByte isIdentChar

/-- The bytes of a word are at an offset, with no byte of a word before or behind them. -/
structure StandsAloneAt (bytes word : List UInt8) (offset : Nat) : Prop where
  here : word <+: bytes.drop offset
  inside : offset ≤ bytes.length
  before : 0 < offset → ∀ b, bytes[offset - 1]? = some b → isWordByte b = false
  after : ∀ b, bytes[offset + word.length]? = some b → isWordByte b = false

theorem any_eq_false_iff {α : Type} {p : α → Bool} {o : Option α} :
    o.any p = false ↔ ∀ x, o = some x → p x = false := by
  cases o <;> simp

theorem getElem?_pred_length_append {α : Type} {before : List α} (rest : List α)
    (h : 0 < before.length) : (before ++ rest)[before.length - 1]? = before.getLast? := by
  rw [List.getElem?_append_left (by omega), List.getLast?_eq_getElem?]

theorem getElem?_length_append {α : Type} (before after : List α) :
    (before ++ after)[before.length]? = after.head? := by
  rw [List.getElem?_append_right le_rfl, Nat.sub_self, List.head?_eq_getElem?]

/-- A word stands alone at an offset if it does between the bytes before and behind it. -/
theorem standsAloneAt_iff {bytes word : List UInt8} {offset : Nat} :
    StandsAloneAt bytes word offset ↔ ∃ before after, bytes = before ++ (word ++ after) ∧
      before.length = offset ∧ before.getLast?.any isWordByte = false ∧
      after.head?.any isWordByte = false := by
  have hbehind : ∀ before after : List UInt8,
      (before ++ (word ++ after))[before.length + word.length]? = after.head? := by
    intro before after
    rw [← List.append_assoc, ← List.length_append, getElem?_length_append]
  constructor
  · rintro ⟨⟨after, hafter⟩, hinside, hbefore, hlater⟩
    obtain ⟨before, rfl, rfl⟩ : ∃ before, bytes = before ++ (word ++ after) ∧ before.length = offset :=
      ⟨bytes.take offset, by rw [hafter, List.take_append_drop], List.length_take_of_le hinside⟩
    refine ⟨before, after, rfl, rfl, any_eq_false_iff.mpr fun b hb => ?_, any_eq_false_iff.mpr ?_⟩
    · have hpos : 0 < before.length := List.length_pos_of_mem (List.mem_of_getLast? hb)
      exact hbefore hpos b ((getElem?_pred_length_append _ hpos).trans hb)
    · rwa [hbehind] at hlater
  · rintro ⟨before, after, rfl, rfl, hbefore, hafter⟩
    refine ⟨by simp, by simp, fun hpos => ?_, ?_⟩
    · rw [getElem?_pred_length_append _ hpos]
      exact any_eq_false_iff.mp hbefore
    · rw [hbehind]
      exact any_eq_false_iff.mp hafter

/-! ## The search -/

variable {text word : List Char}

/-- A word of ASCII is found where it stands alone among the characters. -/
theorem containsWord_iff_exists_append (hne : word ≠ []) (hascii : ∀ c ∈ word, c.toNat < 0x80) :
    Line.containsWord text word = true ↔ ∃ u v, text = u ++ (word ++ v) ∧
      u.getLast?.any isIdentChar = false ∧ v.head?.any isIdentChar = false := by
  have hbefore : ∀ o : Option Char, o.all (!isIdentChar ·) = true ↔ o.any isIdentChar = false := by
    intro o
    cases o <;> simp
  have hafter : ∀ v : List Char, Line.endsWord v = true ↔ v.head?.any isIdentChar = false := by
    intro v
    cases v <;> simp [Line.endsWord]
  simp only [← List.append_assoc]
  constructor
  · intro h
    rw [Line.containsWord, beq_iff_eq] at h
    obtain ⟨u, v, htext, hu, hv⟩ := Line.exists_of_searchWord h
    rw [Option.or_none] at hu
    exact ⟨u, v, htext, (hbefore _).mp hu, (hafter v).mp hv⟩
  · rintro ⟨u, v, rfl, hu, hv⟩
    exact Line.containsWord_append hne (fun c hc => utf8Size_of_ascii (hascii c hc))
      ((hbefore _).mpr hu) ((hafter v).mpr hv)

/-- **A word of ASCII is found exactly if it stands alone at some byte offset.** -/
theorem containsWord_iff_exists_standsAloneAt (hne : word ≠ []) (hascii : ∀ c ∈ word, c.toNat < 0x80) :
    Line.containsWord text word = true ↔
      ∃ offset, StandsAloneAt (encode text) (encode word) offset := by
  simp only [containsWord_iff_exists_append hne hascii, standsAloneAt_iff, isWordByte]
  constructor
  · rintro ⟨u, v, rfl, hu, hv⟩
    refine ⟨_, encode u, encode v, by rw [encode_append, encode_append], rfl, ?_, ?_⟩
    · rw [any_getLast?_encode ofAscii_identChar, hu]
    · rw [any_head?_encode ofAscii_identChar, hv]
  · rintro ⟨_, before, after, hbytes, -, hbefore, hafter⟩
    obtain ⟨u, v, rfl, rfl, rfl⟩ := exists_of_encode_eq_append hascii hne hbytes
    rw [any_getLast?_encode ofAscii_identChar] at hbefore
    rw [any_head?_encode ofAscii_identChar] at hafter
    exact ⟨u, v, rfl, hbefore, hafter⟩

theorem toNat_lt_of_isIdent (h : isIdent word = true) : ∀ c ∈ word, c.toNat < 0x80 :=
  fun c hc => ofAscii_identChar c (isIdentChar_of_isIdent h c hc)

/-! ## Removed constants -/

open Fixer (isKept keptLines)

variable {ls : List (List Char)}

/-- No line that is kept mentions a constant that goes. -/
theorem exists_name_of_removed {x : List Char × Nat} (hx : x ∈ ls.zipIdx)
    (hremoved : isKept ls x.2 = false) : ∃ name, Script.preloadedName? x.1 = some name ∧
      ∀ y ∈ keptLines ls, Script.mentionsWord name y.1 = false := by
  obtain ⟨name, hname, hunused⟩ := (Fixer.isKept_eq_false_iff hx).mp hremoved
  refine ⟨name, hname, fun y hy => Bool.eq_false_iff.mpr fun hmentions => ?_⟩
  obtain ⟨hy, hkept⟩ := List.mem_filter.mp hy
  have hne : y.2 ≠ x.2 := by
    intro heq
    rw [heq, hremoved] at hkept
    cases hkept
  rw [Fixer.isUsedElsewhere_iff.mpr ⟨y, hy, hne, hmentions⟩] at hunused
  cases hunused

/-- A line that is removed is one that is not kept. -/
theorem exists_of_revise_eq_none {index : Nat} {line : List Char} (hline : ls[index]? = some line)
    (hremoved : (Fixer.unusedPreloads.revise ls)[index]? = some none) :
    (line, index) ∈ ls.zipIdx ∧ isKept ls index = false := by
  have hmem : (line, index) ∈ ls.zipIdx := List.mem_zipIdx_iff_getElem?.mpr hline
  refine ⟨hmem, ?_⟩
  have hplace : ls.zipIdx[index]? = some (line, index) := by
    rw [List.getElem?_zipIdx, hline, Nat.zero_add]
    rfl
  rw [Fixer.revise_unusedPreloads, List.getElem?_map, hplace] at hremoved
  simpa using hremoved

/-- The lines that are left are those that are kept. -/
theorem reduceOption_revise (ls : List (List Char)) :
    (Fixer.unusedPreloads.revise ls).reduceOption = (keptLines ls).map (·.1) := by
  rw [Fixer.revise_unusedPreloads, reduceOption_map, keptLines, ← List.filterMap_eq_map,
    List.filterMap_filter]
  rfl

/-- Reading lines back brings in nothing but an empty line. -/
theorem mem_reread {ended : Bool} {l : List Char} (h : l ∈ reread ended ls) : l ∈ ls ∨ l = [] := by
  rw [reread] at h
  split_ifs at h
  · exact .inr (List.mem_singleton.mp h)
  · exact .inl h
  · exact .inl (List.mem_of_mem_dropLast h)
  · exact .inl h

/-- The names that the removed ones of some lines declare are words of none of the lines that are left. -/
def NamesAreGone (ls left : List (List Char)) : Prop :=
  ∀ (index : Nat) (line : List Char), ls[index]? = some line →
    (Fixer.unusedPreloads.revise ls)[index]? = some none →
      ∃ name, Script.preloadedName? line = some name ∧ isIdent name = true ∧
        ∀ rest ∈ left, ∀ offset,
          ¬ StandsAloneAt (encode (Line.mask (Line.code rest))) (encode name) offset

/-- Nothing is left of the names of removed constants where every line is a kept one or empty. -/
theorem namesAreGone_of_subset {left : List (List Char)}
    (hleft : ∀ l ∈ left, l ∈ (keptLines ls).map (·.1) ∨ l = []) : NamesAreGone ls left := by
  intro index line hline hremoved
  obtain ⟨hmem, hkept⟩ := exists_of_revise_eq_none hline hremoved
  obtain ⟨name, hname, hnone⟩ := exists_name_of_removed hmem hkept
  obtain ⟨d, -, hd⟩ := Script.exists_declaration_of_preloadedName? hname
  have hident : isIdent name = true := hd ▸ d.isIdent
  refine ⟨name, hname, hident, fun rest hrest offset halone => ?_⟩
  have hmentions : Script.mentionsWord name rest = true :=
    (containsWord_iff_exists_standsAloneAt (ne_nil_of_isIdent hident)
      (toNat_lt_of_isIdent hident)).mpr ⟨offset, halone⟩
  rcases hleft rest hrest with hrest | rfl
  · obtain ⟨y, hy, rfl⟩ := List.mem_map.mp hrest
    rw [hnone y hy] at hmentions
    cases hmentions
  · rw [Fixer.mentionsWord_nil hname] at hmentions
    cases hmentions

/-- **A name is found exactly if it stands alone among the bytes of a text**, and the search for it always
ends, at offsets that are good. So whatever constants the fix of unused preloads removes together, their
names are words of no line that is left, and of no line of the text that is written. -/
theorem containsWord_tellsWords :
    (∀ text word, isIdent word = true →
      containsWord text word = .ok (Line.containsWord text word) ∧
      (Line.containsWord text word = true ↔
        ∃ offset, StandsAloneAt (encode text) (encode word) offset)) ∧
    (∀ ls, NamesAreGone ls (Fixer.unusedPreloads.revise ls).reduceOption) ∧
    ∀ text, NamesAreGone (lines text) (lines (Fixer.unusedPreloads.apply text).text) := by
  refine ⟨fun text word h => ?_, fun ls => ?_, fun text => ?_⟩
  · have hne := ne_nil_of_isIdent h
    have hascii := toNat_lt_of_isIdent h
    exact ⟨containsWord_eq hne hascii text, containsWord_iff_exists_standsAloneAt hne hascii⟩
  · refine namesAreGone_of_subset fun l hl => .inl ?_
    rwa [reduceOption_revise] at hl
  · refine namesAreGone_of_subset fun l hl => ?_
    rw [Fixer.lines_unusedPreloads] at hl
    exact mem_reread hl

/-- Two constants that go together, while a string has the name of one of them. -/
def twoUnused : List Char :=
  "const A = preload(\"a.gd\")\nconst B: A = preload(\"b.gd\")\nconst C = preload(\"c.gd\")\nvar x = \"C\"\n".toList

/-- Behind an occurrence that does not stand alone, a name is found before a character of two bytes; and a
string that is left has the name of a removed constant, but not as a word of code. -/
theorem containsWord_tellsWords_twoUnused :
    (isIdent ['a'] = true ∧ containsWord "éxa aé".toList ['a'] = .ok true ∧
      ∃ offset, StandsAloneAt (encode "éxa aé".toList) (encode ['a']) offset) ∧
    ((lines twoUnused)[2]? = some "const C = preload(\"c.gd\")".toList ∧
      (Fixer.unusedPreloads.revise (lines twoUnused))[2]? = some none ∧
      "var x = \"C\"".toList ∈ lines (Fixer.unusedPreloads.apply twoUnused).text ∧
      ∀ offset, ¬ StandsAloneAt (encode (Line.mask (Line.code "var x = \"C\"".toList)))
        (encode ['C']) offset) := by
  obtain ⟨hsearch, -, hgone⟩ := containsWord_tellsWords
  have hident : isIdent ['a'] = true := by decide
  have hfound : Line.containsWord "éxa aé".toList ['a'] = true := by decide
  obtain ⟨hok, hiff⟩ := hsearch "éxa aé".toList ['a'] hident
  have hline : (lines twoUnused)[2]? = some "const C = preload(\"c.gd\")".toList := by decide +kernel
  have hremoved : (Fixer.unusedPreloads.revise (lines twoUnused))[2]? = some none := by
    decide +kernel
  have hleft : "var x = \"C\"".toList ∈ lines (Fixer.unusedPreloads.apply twoUnused).text := by
    decide +kernel
  have hname : Script.preloadedName? "const C = preload(\"c.gd\")".toList = some ['C'] := by
    decide +kernel
  obtain ⟨name, hname', -, hnone⟩ := hgone twoUnused 2 _ hline hremoved
  obtain rfl : ['C'] = name := Option.some.inj (hname.symm.trans hname')
  exact ⟨⟨hident, hok.trans (congrArg Except.ok hfound), hiff.mp hfound⟩, hline, hremoved, hleft,
    hnone _ hleft⟩

end GodotLint.Offset
