import GodotLint.Proofs.Line.Indentation
import GodotLint.Proofs.Offset.Numbers
import GodotLint.Proofs.Ordering
import GodotLint.Script.Facts

/-!
# Indentation and the facts of a script

The readers of a script ask of an indentation how deep it is, and nothing else. So two scripts whose
lines differ in their indentations only, line by line of the same depth (`Line.Reindented`), have the
same functions (`Function.ofLines_eq`), and every reader of lines and functions finds the same in both
(`IgnoresLayout`). The accesses of dictionaries have byte offsets, and are not among these readers.

Most readers look for patterns that accept nothing before a space or a tab. The headers of functions,
blocks and declarations run through the indentation first and remember it; of what they remember only
the depth is used.
-/

namespace GodotLint

open Text Pattern

variable {a a' : List Char} {raw raw' : List Char} {lines lines' : List (List Char)}

/-! ## Functions -/

namespace Function

theorem isStatement_eq (h : Line.Reindented raw raw') : isStatement raw = isStatement raw' := by
  rw [isStatement, h.code.trim_eq, isStatement]

theorem bodyLength_eq (h : List.Forall₂ Line.Reindented lines lines') (n : Nat) :
    bodyLength n lines = bodyLength n lines' := by
  induction h with
  | nil => rfl
  | cons hline _ ih =>
      rw [bodyLength, bodyLength, hline.isBlankOrComment_eq, hline.indent_eq, ih]

theorem nesting_eq (h : List.Forall₂ Line.Reindented lines lines') (blocks : List Nat) :
    nesting blocks lines = nesting blocks lines' := by
  induction h generalizing blocks with
  | nil => rfl
  | cons hline _ ih =>
      simp only [nesting, hline.isBlankOrComment_eq, hline.indent_eq, hline.code.trim_eq, ih]

theorem countP_isStatement_eq (h : List.Forall₂ Line.Reindented lines lines') :
    lines.countP isStatement = lines'.countP isStatement := by
  induction h with
  | nil => rfl
  | cons hline _ ih => rw [List.countP_cons, List.countP_cons, isStatement_eq hline, ih]

theorem isDocumented_eq (h : List.Forall₂ Line.Reindented lines lines') :
    isDocumented lines = isDocumented lines' := by
  unfold isDocumented
  induction h with
  | nil => rfl
  | cons hline _ ih =>
      rw [List.dropWhile_cons, List.dropWhile_cons, hline.trim_eq]
      split_ifs
      · exact ih
      · simp only [hline.trim_eq]

/-- A header has the same function behind an indentation of the same depth. -/
theorem ofHeader?_eq {above above' below below' : List (List Char)}
    (habove : List.Forall₂ Line.Reindented above above') (hraw : Line.Reindented raw raw')
    (hbelow : List.Forall₂ Line.Reindented below below') (number : Nat) :
    ofHeader? above number raw below = ofHeader? above' number raw' below' := by
  obtain ⟨a, a', code, h, hcode, hcode'⟩ := hraw.code.exists_append
  unfold ofHeader?
  rw [hcode, hcode']
  refine map_of_rel (h.find?_group (by decide) code) fun m m' hm => ?_
  have hindent := hm.indent_group h 1
  have hbody := List.forall₂_take (bodyLength (Line.indent (m.group 1)) below) hbelow
  simp only [← hindent, ← bodyLength_eq hbelow, nesting_eq hbody, countP_isStatement_eq hbody,
    hbody.length_eq, isDocumented_eq habove, hm.group 3 rfl, hm.group 4 rfl, hm.isSome_group? 2 rfl]
  congr 1
  exact hm.map_text 5 rfl

theorem scan_eq {above above' : List (List Char)} (habove : List.Forall₂ Line.Reindented above above')
    (h : List.Forall₂ Line.Reindented lines lines') (number : Nat) :
    scan above number lines = scan above' number lines' := by
  induction h generalizing above above' number with
  | nil => rfl
  | cons hline hrest ih =>
      rw [scan, scan, ofHeader?_eq habove hline hrest, ih (.cons hline habove)]

/-- **Lines of the same depth have the same functions.** -/
theorem ofLines_eq (h : List.Forall₂ Line.Reindented lines lines') : ofLines lines = ofLines lines' :=
  scan_eq .nil h 1

end Function

/-! ## Readers -/

/-- A reader of lines and functions that asks of an indentation only how deep it is. -/
def IgnoresLayout {α : Type} (read : List (List Char) → List Function → α) : Prop :=
  ∀ lines lines' functions, List.Forall₂ Line.Reindented lines lines' →
    read lines functions = read lines' functions

/-- The same lines have the same numbers. -/
theorem forall₂_zipIdx (h : List.Forall₂ Line.Reindented lines lines') (n : Nat) :
    List.Forall₂ (fun x x' => Line.Reindented x.1 x'.1 ∧ x.2 = x'.2) (lines.zipIdx n)
      (lines'.zipIdx n) := by
  induction h generalizing n with
  | nil => exact .nil
  | cons hline _ ih => exact .cons ⟨hline, rfl⟩ (ih (n + 1))

namespace IgnoresLayout

variable {α : Type}

/-- A reader that takes the lines one by one ignores the layout if it does so of each line. -/
theorem of_flatMap {read : List Function → List Char → Nat → List α}
    (h : ∀ functions raw raw' line, Line.Reindented raw raw' →
      read functions raw line = read functions raw' line) :
    IgnoresLayout fun lines functions =>
      (lines.zipIdx 1).flatMap fun (raw, line) => read functions raw line := by
  intro lines lines' functions hlines
  refine flatMap_of_forall₂ (forall₂_zipIdx hlines 1) ?_
  rintro ⟨raw, line⟩ ⟨raw', _⟩ ⟨hraw, rfl⟩
  exact h functions raw raw' line hraw

theorem of_filterMap {read : List Function → List Char → Nat → Option α}
    (h : ∀ functions raw raw' line, Line.Reindented raw raw' →
      read functions raw line = read functions raw' line) :
    IgnoresLayout fun lines functions =>
      (lines.zipIdx 1).filterMap fun (raw, line) => read functions raw line := by
  intro lines lines' functions hlines
  refine filterMap_of_forall₂ (forall₂_zipIdx hlines 1) ?_
  rintro ⟨raw, line⟩ ⟨raw', _⟩ ⟨hraw, rfl⟩
  exact h functions raw raw' line hraw

end IgnoresLayout

namespace Script

/-! ## Suspension points and match blocks -/

theorem awaits_ignoresLayout : IgnoresLayout awaits := by
  refine .of_filterMap fun functions raw raw' line hraw => ?_
  obtain ⟨a, a', code, h, hcode, hcode'⟩ := hraw.code.exists_append
  unfold awaitOf?
  rw [hcode, hcode']
  refine bind_of_rel (h.find? (by decide) code) fun m m' hm => ?_
  rw [h.isInsideLiteral_start hm, hm.group 1 rfl]

theorem branchesBelow_eq (h : List.Forall₂ Line.Reindented lines lines') (headerIndent : Nat)
    (level : Option Nat) (line : Nat) :
    branchesBelow headerIndent level line lines = branchesBelow headerIndent level line lines' := by
  induction h generalizing level line with
  | nil => rfl
  | cons hline _ ih =>
      simp only [branchesBelow, hline.code.isAllBlank_eq, hline.code.indent_eq, hline.code.trim_eq, ih]

theorem matchBlocks_ignoresLayout : IgnoresLayout matchBlocks := by
  intro lines lines' functions hlines
  unfold matchBlocks
  generalize 1 = line
  induction hlines generalizing line with
  | nil => rfl
  | cons hraw hrest ih =>
      obtain ⟨a, a', code, h, hcode, hcode'⟩ := hraw.code.exists_append
      rw [matchBlocksFrom, matchBlocksFrom, hcode, hcode', ih]
      congr 2
      refine map_of_rel (h.find?_group (by decide) code) fun m m' hm => ?_
      rw [hm.indent_group h, hm.group 2 rfl, branchesBelow_eq hrest]

/-! ## Strings and numbers -/

theorem strings_ignoresLayout : IgnoresLayout fun lines _ => strings lines := by
  refine .of_flatMap fun _ raw raw' line hraw => ?_
  obtain ⟨a, a', code, h, hcode, hcode'⟩ := hraw.code.exists_append
  unfold stringsOfLine
  rw [hcode, hcode']
  simp only [h.left.trimStart_append, h.right.trimStart_append]
  split_ifs
  · rfl
  · refine map_of_forall₂ (h.findAll (by decide) code) fun m m' hm => ?_
    rw [hm.group 1 rfl, hm.group 2 rfl]

/-- The same token with more text before it. -/
def NumberToken.behind (b : List Char) (t : NumberToken) : NumberToken :=
  { t with passed := t.passed ++ b }

section numbers

variable {b : List Char} (hb : IsIndentation b)
include hb

/-- An indentation before a text is skipped with it, if all of the text is. -/
theorem head?_dropWhile_append {p : Char → Bool} (hspace : p ' ' = true) (htab : p '\t' = true)
    (s : List Char) : ((s ++ b).dropWhile p).head? = (s.dropWhile p).head? := by
  have hall : b.dropWhile p = [] := List.dropWhile_eq_nil_iff.mpr (hb.forall_mem hspace htab)
  rw [List.dropWhile_append]
  cases hrest : s.dropWhile p with
  | nil => rw [List.isEmpty_nil, if_pos rfl, hall]
  | cons c rest => rfl

/-- A minus is a sign behind an indentation if it is one without. -/
theorem signFollows_append (passed : List Char) :
    Offset.signFollows (passed ++ b) = Offset.signFollows passed := by
  cases passed with
  | nil =>
      cases b with
      | nil => rfl
      | cons c b =>
          obtain ⟨hc, -⟩ := hb.of_cons
          rcases hc with rfl | rfl <;> rfl
  | cons c before =>
      by_cases hc : c = '-'
      · subst hc
        rw [List.cons_append, Offset.signFollows, Offset.signFollows,
          head?_dropWhile_append hb (by decide) (by decide)]
      · simp [Offset.signFollows, hc]

theorem withSign_behind (t : NumberToken) : (t.behind b).withSign = t.withSign.behind b := by
  rw [Offset.withSign_eq, Offset.withSign_eq]
  unfold NumberToken.behind
  rw [signFollows_append hb]
  split_ifs with hsign
  · obtain ⟨passed, chars, rest⟩ := t
    cases passed with
    | nil => cases hsign
    | cons c before => rfl
  · rfl

theorem isSubscript_behind (t : NumberToken) : (t.behind b).isSubscript = t.isSubscript := by
  unfold NumberToken.isSubscript NumberToken.behind
  rw [head?_dropWhile_append hb (by decide) (by decide)]

/-- Behind an indentation there are the same numbers. -/
theorem numberTokensFrom_append (count : Nat) (passed rest : List Char) :
    numberTokensFrom count (passed ++ b) rest =
      (numberTokensFrom count passed rest).map (NumberToken.behind b) := by
  induction count generalizing passed rest with
  | zero => rfl
  | succ count ih =>
      cases rest with
      | nil => rfl
      | cons c rest =>
          have hcontinues : ((passed ++ b).head?.any fun d => isIdentChar d || d == '.') =
              passed.head?.any fun d => isIdentChar d || d == '.' := by
            cases passed with
            | cons d passed => rfl
            | nil =>
                cases b with
                | nil => rfl
                | cons d b =>
                    obtain ⟨hd, -⟩ := hb.of_cons
                    rcases hd with rfl | rfl <;> rfl
          have htoken := withSign_behind hb ⟨passed, (c :: rest).take (numberLength (c :: rest)),
            (c :: rest).drop (numberLength (c :: rest))⟩
          rw [Offset.numberTokensFrom_cons, Offset.numberTokensFrom_cons, hcontinues]
          dsimp only
          simp only [← List.append_assoc, ih]
          split_ifs
          · rfl
          · rfl
          · rfl
          · rw [List.map_cons]
            exact congrArg (· :: _) htoken

/-- A text behind an indentation has the numbers of the text. -/
theorem numberTokens_append (s : List Char) :
    numberTokens (b ++ s) = (numberTokens s).map (NumberToken.behind b.reverse) := by
  have hskip : ∀ passed, numberTokensFrom (b ++ s).length passed (b ++ s) =
      numberTokensFrom s.length (b.reverse ++ passed) s := by
    induction b with
    | nil => exact fun _ => rfl
    | cons c b ih =>
        intro passed
        obtain ⟨hc, hb⟩ := hb.of_cons
        have hdigit : isAsciiDigit c = false := by rcases hc with rfl | rfl <;> decide
        rw [List.cons_append, List.length_cons, Offset.numberTokensFrom_cons, hdigit]
        simp only [Bool.not_false, if_true, List.take_succ_cons, List.take_zero, List.drop_succ_cons,
          List.drop_zero, List.reverse_cons, List.reverse_nil, List.nil_append, List.cons_append,
          List.append_assoc, ih hb]
  unfold numberTokens
  rw [hskip, List.append_nil]
  exact numberTokensFrom_append hb.reverse s.length [] s

end numbers

/-- The words that tell what numbers measure start with letters. -/
theorem categoryOfLine_append {a : List Char} (ha : IsIndentation a) (code : List Char) :
    categoryOfLine (a ++ code) = categoryOfLine code := by
  have hwords : ∀ entry ∈ categoryWords, ∀ w ∈ entry.2,
      w.toList.head?.any (fun c => c != ' ' && c != '\t') = true := by decide
  unfold categoryOfLine
  simp only [lower_append ha]
  rw [List.find?_congr fun entry hentry => ?_]
  obtain ⟨category, words⟩ := entry
  show words.any _ = words.any _
  rw [Bool.eq_iff_iff, List.any_eq_true, List.any_eq_true]
  refine exists_congr fun w => and_congr_right fun hw => ?_
  rw [ha.contains_append _ (hwords _ hentry w hw)]

theorem numbers_ignoresLayout : IgnoresLayout numbers := by
  refine .of_flatMap fun functions raw raw' line hraw => ?_
  obtain ⟨a, a', code, h, hcode, hcode'⟩ := hraw.code.exists_append
  have hnamed : namesNumbers.occursIn (a ++ code) = namesNumbers.occursIn (a' ++ code) :=
    isSome_of_rel (h.find?_blanks (by decide) code)
  unfold numbersOfLine
  simp only [hcode, hcode', hnamed, categoryOfLine_append h.left, categoryOfLine_append h.right,
    h.left.mask_append, h.right.mask_append, numberTokens_append h.left, numberTokens_append h.right,
    List.filterMap_map, Function.comp_def, isSubscript_behind h.left.reverse,
    isSubscript_behind h.right.reverse]
  rfl

/-! ## Loads and node lookups -/

theorem loads_ignoresLayout (base : Option Extends) :
    IgnoresLayout fun lines functions => loads lines functions base := by
  have hlines : IgnoresLayout fun lines functions =>
      (lines.zipIdx 1).flatMap fun (raw, line) => loadsOfLine functions raw line := by
    refine .of_flatMap fun functions raw raw' line hraw => ?_
    obtain ⟨a, a', code, h, hcode, hcode'⟩ := hraw.code.exists_append
    have hbinding : (binding.find? (a ++ code)).map (fun b => str (b.group 1)) =
        (binding.find? (a' ++ code)).map fun b => str (b.group 1) :=
      map_of_rel (h.find?_blanks (by decide) code) fun m m' hm => by rw [hm.group 1 rfl]
    rw [loadsOfLine, loadsOfLine, hcode, hcode']
    refine ite_congr (by rw [h.contains_eq code (by decide)]) (fun _ => rfl) fun _ => ?_
    refine filterMap_of_forall₂ (h.findAll (by decide) code) fun m m' hm => ?_
    refine ite_congr (by rw [h.isInsideLiteral_start hm]) (fun _ => rfl) fun _ => ?_
    rw [hm.group 1 rfl, hm.group 2 rfl, hbinding, h.contains_eq code (by decide)]
  intro lines lines' functions hall
  simp only [loads, hlines lines lines' functions hall]

/-- The lookups on a line of code are the same, and come in the same order, behind both indentations. -/
theorem forall₂_lookupsIn (h : SameIndent a a') (code : List Char) :
    List.Forall₂ (fun found found' => (∃ n, found.1 = width a + n ∧ found'.1 = width a' + n) ∧
      found.2 = found'.2) (lookupsIn (a ++ code)) (lookupsIn (a' ++ code)) := by
  refine forall₂_stableSort ?_ (List.rel_append (List.rel_append ?_ ?_) ?_)
  · rintro ⟨_, _⟩ ⟨_, _⟩ ⟨_, _⟩ ⟨_, _⟩ ⟨⟨n, hn, hn'⟩, -⟩ ⟨⟨k, hk, hk'⟩, -⟩
    dsimp only at hn hn' hk hk'
    rw [hn, hn', hk, hk']
    simp
  · refine List.rel_filterMap ?_ (h.findAll (by decide) code)
    intro m m' hm
    refine rel_unless (h.isInsideLiteral_start hm code) ⟨hm.whole.start, ?_⟩
    rw [hm.group 1 rfl]
  · have hedge : uniqueName.AsksForEdge [.blank, .only '(', .only '=', .only ',', .only '['] := by
      decide
    refine List.rel_filterMap ?_ (h.findAll_edge (by decide) hedge code)
    intro m m' hm
    refine rel_bind (hm.group? 1 rfl) fun g g' hspan => ?_
    refine rel_unless (h.isInsideLiteral hspan code) ⟨hspan.start, ?_⟩
    rw [Span.text, Span.text, hspan.chars]
  · refine List.rel_filterMap ?_ (h.findAll (by decide) code)
    intro m m' hm
    refine rel_unless (h.isInsideLiteral_start hm code) ⟨hm.whole.start, ?_⟩
    rw [hm.group 1 rfl, hm.group 2 rfl]

theorem nodeRefs_ignoresLayout : IgnoresLayout nodeRefs := by
  refine .of_flatMap fun functions raw raw' line hraw => ?_
  obtain ⟨a, a', code, h, hcode, hcode'⟩ := hraw.code.exists_append
  have hmay : mayLookUp (a ++ code) = mayLookUp (a' ++ code) := by
    unfold mayLookUp
    rw [h.contains_char_eq code (by decide), h.contains_char_eq code (by decide),
      h.contains_eq code (by decide), h.contains_eq code (by decide)]
  have hchecked : nullCheck.occursIn (a ++ code) = nullCheck.occursIn (a' ++ code) :=
    isSome_of_rel (h.find? (by decide) code)
  rw [nodeRefsOfLine, nodeRefsOfLine, hcode, hcode']
  refine ite_congr (by rw [hmay]) (fun _ => rfl) fun _ => ?_
  rw [h.contains_eq code (by decide), hchecked]
  refine map_of_forall₂ (forall₂_lookupsIn h code) ?_
  rintro ⟨_, kind, path⟩ ⟨_, _, _⟩ ⟨-, hfound⟩
  cases hfound
  rfl

end Script

/-! ## Mentions -/

namespace Mention

variable {p : Pattern}

theorem groupsOf_behind (h : SameIndent a a') (hp : p.isConsuming = true ∧ p.IsShy) (index : Nat)
    (code : List Char) : groupsOf p index (a ++ code) = groupsOf p index (a' ++ code) :=
  filterMap_of_forall₂ (h.findAll hp code) fun _ _ hm => hm.map_group? index rfl str

theorem unquotedGroupsOf_behind (h : SameIndent a a') (hp : p.isConsuming = true ∧ p.IsShy) (index : Nat)
    (code : List Char) :
    unquotedGroupsOf p index (a ++ code) = unquotedGroupsOf p index (a' ++ code) := by
  refine filterMap_of_forall₂ (h.findAll hp code) fun m m' hm => ?_
  refine bind_of_rel (hm.group? index rfl) fun g g' hspan => ?_
  rw [h.isInsideLiteral hspan code, Span.text, Span.text, hspan.chars]

theorem classesIn_behind (h : SameIndent a a') (code : List Char) :
    classesIn (a ++ code) = classesIn (a' ++ code) := by
  refine filterMap_of_forall₂ (h.findAll (by decide) code) fun m m' hm => ?_
  have heither := rel_or (hm.group? 1 rfl) (hm.group? 2 rfl)
  simp only [Option.orElse_eq_orElse, Option.orElse_eq_or]
  refine bind_of_rel heither fun g g' hspan => ?_
  rw [h.isInsideLiteral hspan code, Span.text, Span.text, hspan.chars]

theorem actionsIn_behind (h : SameIndent a a') (code : List Char) :
    actionsIn (a ++ code) = actionsIn (a' ++ code) := by
  refine flatMap_of_forall₂ (h.findAll (by decide) code) fun m m' hm => ?_
  refine ite_congr (by rw [h.isInsideLiteral_start hm]) (fun _ => rfl) fun _ => ?_
  rw [hm.group 1 rfl, hm.group 2 rfl]

theorem membersIn_behind (h : SameIndent a a') (code : List Char) :
    membersIn (a ++ code) = membersIn (a' ++ code) := by
  refine filterMap_of_forall₂ (h.findAll (by decide) code) fun m m' hm => ?_
  refine ite_congr (by rw [h.isInsideLiteral_start hm]) (fun _ => rfl) fun _ => ?_
  rw [Span.text, Span.text, hm.whole.chars]

theorem inCode_behind (h : SameIndent a a') (code : List Char) :
    inCode (a ++ code) = inCode (a' ++ code) := by
  unfold inCode
  rw [groupsOf_behind h (by decide), groupsOf_behind h (by decide), groupsOf_behind h (by decide),
    unquotedGroupsOf_behind h (by decide), unquotedGroupsOf_behind h (by decide), classesIn_behind h,
    actionsIn_behind h, membersIn_behind h]

theorem ofLines_ignoresLayout : IgnoresLayout ofLines := by
  refine .of_flatMap fun functions raw raw' line hraw => ?_
  have hblank := hraw.code.isAllBlank_eq
  obtain ⟨a, a', code, h, hcode, hcode'⟩ := hraw.code.exists_append
  rw [hcode, hcode'] at hblank
  rw [ofLine, ofLine, hcode, hcode']
  refine ite_congr (by rw [hblank]) (fun _ => rfl) fun _ => ?_
  rw [inCode_behind h]

end Mention

/-! ## Markers -/

namespace Marker

theorem contextOf?_eq (h : List.Forall₂ Line.Reindented lines lines') :
    contextOf? lines = contextOf? lines' := by
  induction h with
  | nil => rfl
  | cons hline _ ih =>
      obtain ⟨a, a', s, h, rfl, rfl⟩ := hline.exists_append
      rw [contextOf?, contextOf?, ih]
      rcases exists_of_rel (h.find?_blanks (p := contextHeader) (by decide) s) with
        ⟨m, m', hm, hm', hsame⟩ | ⟨hm, hm'⟩
      · simp only [hm, hm', hsame.group 1 rfl, hsame.group 2 rfl]
      · simp only [hm, hm']

theorem scan_eq {above above' : List (List Char)} (habove : List.Forall₂ Line.Reindented above above')
    (h : List.Forall₂ Line.Reindented lines lines') (line : Nat) :
    scan above line lines = scan above' line lines' := by
  induction h generalizing above above' line with
  | nil => rfl
  | cons hline _ ih =>
      have hall := List.Forall₂.cons hline habove
      rw [scan, scan, ih hall, ofLine?, ofLine?, hline.comment?_eq, contextOf?_eq hall]

/-- Comments stand behind the indentation, and their context is told by the headers above. -/
theorem ofLines_eq (h : List.Forall₂ Line.Reindented lines lines') : ofLines lines = ofLines lines' :=
  scan_eq .nil h 1

end Marker

/-! ## Declarations -/

namespace Script

theorem annotations_eq (h : SameIndent a a') (code : List Char) :
    annotations (a ++ code) = annotations (a' ++ code) := by
  refine map_of_forall₂ (h.findAll (by decide) code) fun m m' hm => ?_
  rw [hm.group 1 rfl]
  congr 1
  exact hm.map_group? 2 rfl fun args => str (trim args)

/-- The values of an enum are trimmed, so that the indentation is no part of them. -/
theorem enumValues_append (ha : IsIndentation a) (code : List Char) :
    enumValues (a ++ code) = enumValues code := by
  unfold enumValues
  rw [ha.before_append code (by decide) (by decide)]
  obtain ⟨piece, pieces, hpieces, happend⟩ :=
    ha.splitAt_append (before (· == '\x7d') code) (d := ',') (by decide)
  have hname : trim (before (· == '=') (a ++ piece)) = trim (before (· == '=') piece) := by
    rw [ha.before_append piece (by decide) (by decide), ha.trim_append]
  rw [hpieces, happend, List.filterMap_cons, List.filterMap_cons, hname]

/-- **One line of code declares the same behind an indentation of the same depth.** The patterns are
tried one after the other, and each one has a match on both sides or on none. -/
theorem readCode_eq (h : SameIndent a a') (d : Declared) (function : Option String) (code : List Char)
    (line : Nat) : d.readCode function (a ++ code) line = d.readCode function (a' ++ code) line := by
  unfold Declared.readCode
  refine ite_congr (congrArg (· = true) (isSome_of_rel (h.find?_blanks (by decide) code)))
    (fun _ => by rw [annotations_eq h]) fun _ => ?_
  rcases exists_of_rel (h.find? (p := classNameClause) (by decide) code) with
    ⟨m, m', hm, hm', hsame⟩ | ⟨hm, hm'⟩
  · have hbase := hsame.map_group? 2 rfl fun b => extendsOf b line
    simp only [hm, hm', hsame.group 1 rfl, hbase]
  simp only [hm, hm']
  rcases exists_of_rel (h.find? (p := extendsClause) (by decide) code) with
    ⟨m, m', hm, hm', hsame⟩ | ⟨hm, hm'⟩
  · simp only [hm, hm', hsame.group 1 rfl]
  simp only [hm, hm']
  rcases exists_of_rel (h.find?_group (p := innerClassHeader) (by decide) code) with
    ⟨m, m', hm, hm', hsame⟩ | ⟨hm, hm'⟩
  · have hbase := hsame.map_group? 3 rfl fun b => str (trimWhile (· == '"') b)
    simp only [hm, hm', hsame.indent_group h, hsame.group 2 rfl, hbase]
  simp only [hm, hm']
  rcases exists_of_rel (h.find?_group (p := constantDeclaration) (by decide) code) with
    ⟨m, m', hm, hm', hsame⟩ | ⟨hm, hm'⟩
  · simp only [hm, hm', hsame.indent_group h, hsame.group 2 rfl, hsame.group 4 rfl,
      hsame.map_text 3 rfl]
  simp only [hm, hm']
  rcases exists_of_rel (h.find?_group (p := variableDeclaration) (by decide) code) with
    ⟨m, m', hm, hm', hsame⟩ | ⟨hm, hm'⟩
  · have hvalue := hsame.map_group? 6 rfl fun v => str (trim (dropEndWhile (· == ':') (trim v)))
    simp only [hm, hm', hsame.indent_group h, hsame.group 2 rfl, hsame.group 4 rfl,
      hsame.isSome_group? 3 rfl, hsame.map_text 5 rfl, hvalue]
  simp only [hm, hm']
  rcases exists_of_rel (h.find?_group (p := signalDeclaration) (by decide) code) with
    ⟨m, m', hm, hm', hsame⟩ | ⟨hm, hm'⟩
  · simp only [hm, hm', hsame.indent_group h, hsame.group 2 rfl]
  simp only [hm, hm']
  rcases exists_of_rel (h.find?_group (p := enumHeader) (by decide) code) with
    ⟨m, m', hm, hm', hsame⟩ | ⟨hm, hm'⟩
  · have hindent := hsame.indent_group h 1
    let enumNamed (name : String) : Declaration :=
      { kind := .enum, name, line, indent := Line.indent (m'.group 1) }
    have hnamed : (m.group? 2).map (fun name => enumNamed name.text) =
        (m'.group? 2).map fun name => enumNamed name.text :=
      hsame.map_group? 2 rfl fun name => enumNamed (str name)
    dsimp only [enumNamed] at hnamed
    simp only [hm, hm', hindent, hsame.group 3 rfl, ← Option.toList_map, hnamed]
  simp only [hm, hm']

theorem readLine_eq (h : Line.Reindented raw raw') (functions : List Function) (d : Declared)
    (line : Nat) : d.readLine functions (raw, line) = d.readLine functions (raw', line) := by
  unfold Declared.readLine
  cases d.openEnum with
  | some indent =>
      obtain ⟨a, a', code, h, hcode, hcode'⟩ := h.code.exists_append
      simp only [hcode, hcode', enumValueDeclarations, enumValues_append h.left,
        enumValues_append h.right, h.contains_char_eq code (d := '\x7d') (by decide)]
  | none =>
      cases hblank : isAllBlank (Line.code raw) with
      | true =>
          have hblank' : isAllBlank (Line.code raw') = true := h.code.isAllBlank_eq ▸ hblank
          simp only [trimEnd_of_isAllBlank hblank, trimEnd_of_isAllBlank hblank']
      | false =>
          have hcode := h.code.trimEnd hblank
          have hblank' := hcode.isAllBlank_eq
          obtain ⟨a, a', code, h, hcode, hcode'⟩ := hcode.exists_append
          rw [hcode, hcode'] at hblank'
          simp only [hcode, hcode', hblank', readCode_eq h]

theorem declared_ignoresLayout : IgnoresLayout declared := by
  intro lines lines' functions hlines
  have hread : ∀ n d, (lines.zipIdx n).foldl (Declared.readLine functions) d =
      (lines'.zipIdx n).foldl (Declared.readLine functions) d := by
    induction hlines with
    | nil => exact fun _ _ => rfl
    | cons hline _ ih =>
        intro n d
        rw [List.zipIdx_cons, List.zipIdx_cons, List.foldl_cons, List.foldl_cons, readLine_eq hline, ih]
  rw [declared, declared, hread]

end Script

end GodotLint
