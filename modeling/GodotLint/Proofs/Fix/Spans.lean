import GodotLint.Proofs.Fix.Part
import GodotLint.Proofs.Fix.Spot
import GodotLint.Proofs.Fix.Text

/-!
# What the fix of dictionary accesses rewrites

A fix is exact in its spans (`IsSpanExact`) if it keeps the lines of a text with their ends, makes
each line from the old one by replacing the accesses to be read by `get` and nothing else, and says
of exactly the lines that differ that they have changed. The first main statement is that the fix of
dictionary accesses is so on every text whose line ends are all alike
(`dictAccess_isSpanExact`).

An array literal of one text behind a keyword, as in `return ["key"]`, is written like an access by
brackets whose receiver is the keyword. What the fix rewrites has an identifier path as its receiver,
but the reader of accesses does not tell keywords from names. The second main statement
(`dictAccess_receiver_iff`) says that no receiver has a keyword in it exactly when all such literals
of the text are kept, and when one of them is kept.
-/

namespace GodotLint.Fixer

open Text Script Pattern

/-! ## Edits -/

/-- A span of a line by its byte offsets, and what comes in its place. -/
structure Edit where
  start : Nat
  stop : Nat
  new : List Char
  deriving DecidableEq, Repr

/-- A text that starts at a byte offset of a line becomes another one by edits: what stands in the
span of an edit is replaced, and everything between the spans stays. -/
inductive Edited : (offset : Nat) → List Char → List Edit → List Char → Prop
  | done (offset : Nat) (s : List Char) : Edited offset s [] s
  | replace {offset : Nat} {gap old rest new out : List Char} {edits : List Edit}
      (later : Edited (offset + width (gap ++ old)) rest edits out) :
      Edited offset (gap ++ old ++ rest)
        (⟨offset + width gap, offset + width (gap ++ old), new⟩ :: edits) (gap ++ new ++ out)

namespace Edited

variable {offset : Nat} {s out : List Char} {edits : List Edit}

/-- Every edit starts in the text and ends after its start. -/
theorem start_le (h : Edited offset s edits out) :
    ∀ e ∈ edits, offset ≤ e.start ∧ e.start ≤ e.stop := by
  induction h with
  | done => simp
  | replace later ih =>
      refine List.forall_mem_cons.mpr ⟨?_, fun e he => ?_⟩
      · simp only [width_append]
        omega
      · have := ih e he
        omega

/-- The spans lie apart, one after the other. -/
theorem pairwise (h : Edited offset s edits out) :
    edits.Pairwise fun a b => a.stop ≤ b.start := by
  induction h with
  | done => exact .nil
  | replace later ih => exact .cons (fun e he => (later.start_le e he).1) ih

end Edited

/-! ## The edits of a line -/

/-- The edit that makes a read by brackets a call of `get`. -/
def editOf (a : Access) : Edit := ⟨a.column, a.stop, (getExpression a.receiver a.key).toList⟩

/-- The accesses of a line that are to be replaced: by brackets, not written to and, on the line as
it was, not followed by a further subscript. -/
def IsReplaced (line : List Char) (a : Access) : Prop :=
  isRead a = true ∧ isSubscripted line a = false

/-- The edit that rewrites a token. -/
def editOfToken (x : Placed Subscript) : Edit :=
  ⟨width x.before, width (x.before ++ x.token.text), callFor x.token⟩

/-- Rewriting open tokens is editing their spans. -/
theorem edited_spliced {pre post : List Char} {qs : List (Placed Subscript)}
    (h : Row Subscript.text pre post qs) (hopen : ∀ x ∈ qs, isOpen x = true) :
    Edited (width pre) post (qs.map editOfToken) (spliced pre post qs) := by
  induction h with
  | nil pre post => exact .done _ _
  | @cons pre gap rest after a qs _ ih =>
      have hlater := ih fun x hx => hopen x (List.mem_cons_of_mem _ hx)
      have hcall : rewritten ⟨pre ++ gap, a, after⟩ = callFor a := by
        rw [rewritten, hopen _ (List.mem_cons_self ..)]
        rfl
      rw [List.append_assoc pre, width_append] at hlater
      rw [spliced_cons, hcall, List.map_cons]
      have hedit : editOfToken ⟨pre ++ gap, a, after⟩ =
          ⟨width pre + width gap, width pre + width (gap ++ a.text), callFor a⟩ := by
        simp [editOfToken]
      rw [hedit]
      rw [List.append_assoc pre] at *
      exact .replace hlater

/-- The accesses of a line that are to be replaced are its open tokens. -/
theorem mem_replaced_iff {line : List Char} {number : Nat} {ps : List (Placed Subscript)}
    (hps : Scan Subscript.text [] (Line.code line) ps) {a : Access} :
    a ∈ accessesOfLine line number ∧ IsReplaced line a ↔
      ∃ x ∈ ps, isOpen x = true ∧ accessOfSubscript (Line.code line) number x = a := by
  obtain ⟨comment, hline, -, hcomment⟩ := Line.code_spec line
  obtain ⟨cs, hcs⟩ := spells_callAccess.exists_scan (Line.code line)
  have hreplaced : ∀ x ∈ ps, isOutside x = true → (isOpen x = true ↔
      IsReplaced line (accessOfSubscript (Line.code line) number x)) := by
    intro x hx hout
    have hcut : line = x.before ++ x.token.text ++ (x.after ++ comment) := by
      have hcode := (hps.eq_append x hx).1
      rw [List.nil_append] at hcode
      rw [← List.append_assoc, ← hcode, ← hline]
    have hfollows : isSubscripted line (accessOfSubscript (Line.code line) number x) =
        subscriptFollows x.after := by
      change subscriptFollows (dropBytes (width (x.before ++ x.token.text)) line) = _
      rw [hcut, dropBytes_width_append, subscriptFollows_append hcomment]
    have hread : isRead (accessOfSubscript (Line.code line) number x) =
        !assignmentAfter.occursIn x.after := rfl
    rw [IsReplaced, hfollows, hread, isOpen, hout]
    simp
  constructor
  · rintro ⟨ha, ha'⟩
    rcases (mem_accessesOfLine_iff hps hcs).mp ha with ⟨x, hx, hout, rfl⟩ | ⟨x, hx, hout, rfl⟩
    · exact ⟨x, hx, (hreplaced x hx hout).mpr ha', rfl⟩
    · -- a call is no access by brackets
      obtain ⟨hread, -⟩ := ha'
      simp only [isRead, accessOfCall] at hread
      split_ifs at hread <;> cases hread
  · rintro ⟨x, hx, hopen, rfl⟩
    have hout : isOutside x = true := by
      rw [isOpen, Bool.and_eq_true, Bool.and_eq_true] at hopen
      exact hopen.1.1
    exact ⟨(mem_accessesOfLine_iff hps hcs).mpr (.inl ⟨x, hx, hout, rfl⟩),
      (hreplaced x hx hout).mp hopen⟩

/-- What the fix does to a line is to edit the spans of the accesses that are to be replaced. -/
theorem exists_edits (line : List Char) (number : Nat) : ∃ edits : List Edit,
    Edited 0 line edits (fixedLine line) ∧
      ∀ e, e ∈ edits ↔ ∃ a ∈ accessesOfLine line number, IsReplaced line a ∧ e = editOf a := by
  obtain ⟨ps, hps⟩ := spells_bracketAccess.exists_scan (Line.code line)
  have hopen := openTokens_filter hps
  refine ⟨(ps.filter isOpen).map editOfToken, ?_, fun e => ?_⟩
  · rw [hopen.fixed]
    exact edited_spliced hopen.row hopen.isOpen
  · simp only [← and_assoc, mem_replaced_iff hps, List.mem_map, List.mem_filter]
    constructor
    · rintro ⟨x, hx, rfl⟩
      exact ⟨_, ⟨x, hx, rfl⟩, rfl⟩
    · rintro ⟨a, ⟨x, hx, rfl⟩, rfl⟩
      exact ⟨x, hx, rfl⟩

/-! ## The whole text -/

variable {text : List Char}

/-- The fixed lines keep the ends. -/
theorem map_ending_dictAccess (h : IsUniform text) :
    (textLines (dictAccess.apply text).text).map EndedLine.ending =
      (textLines text).map EndedLine.ending := by
  by_cases hchanges : (dictAccess.apply text).changes = []
  · rw [apply_eq_self_iff.mpr hchanges]
  · have hkept : (dictAccess.revise (lines text)).filterMap (fun line => line) =
        (lines text).map fixedLine := by
      rw [revise_dictAccess, List.filterMap_map, ← List.filterMap_eq_map]
      rfl
    have hlaid := (laid_lineEnd text).map feed_not_mem_fixedLine getLast?_fixedLine
    rw [text_apply hchanges, hkept,
      hlaid.textLines_eq (reread_map eq_nil_of_fixedLine (reread_lines text)),
      textLines_eq_withEnds h, map_ending_withEnds_map]

/-- Each fixed line is the old one with the spans of its accesses edited that are to be replaced. -/
theorem exists_edits_of_line (text : List Char) {i : Nat} {line : List Char}
    (h : (lines text)[i]? = some line) : ∃ edits new,
    (lines (dictAccess.apply text).text)[i]? = some new ∧ Edited 0 line edits new ∧
      (edits.Pairwise fun a b => a.stop ≤ b.start) ∧
        ∀ e, e ∈ edits ↔ ∃ a ∈ Script.accesses (lines text), a.line = i + 1 ∧
          IsReplaced line a ∧ e = editOf a := by
  obtain ⟨edits, hedited, hmem⟩ := exists_edits line (i + 1)
  have hnumber : (line, i + 1) ∈ (lines text).zipIdx 1 := by
    rw [List.mk_mem_zipIdx_iff_le_and_getElem?_sub]
    exact ⟨by omega, h⟩
  refine ⟨edits, fixedLine line, ?_, hedited, hedited.pairwise, fun e => ?_⟩
  · rw [lines_dictAccess, List.getElem?_map, h]
    rfl
  · rw [hmem]
    simp only [← mem_accesses_iff hnumber, and_assoc]

/-- The changes are the lines that differ from the fixed ones. -/
theorem mem_changes_dictAccess_iff {c : LineChange} : c ∈ (dictAccess.apply text).changes ↔
    ∃ i before after, (lines text)[i]? = some before ∧
      (lines (dictAccess.apply text).text)[i]? = some after ∧ before ≠ after ∧
        c = ⟨i + 1, before, some after⟩ := by
  rw [mem_changes_iff, revise_dictAccess, lines_dictAccess]
  constructor
  · rintro ⟨i, before, after, hbefore, hafter, hne, rfl⟩
    rw [List.getElem?_map, hbefore, Option.map_some, Option.some_inj] at hafter
    subst hafter
    refine ⟨i, before, fixedLine before, hbefore, ?_, fun heq => hne (congrArg some heq.symm), rfl⟩
    rw [List.getElem?_map, hbefore, Option.map_some]
  · rintro ⟨i, before, after, hbefore, hafter, hne, rfl⟩
    rw [List.getElem?_map, hbefore, Option.map_some, Option.some_inj] at hafter
    subst hafter
    refine ⟨i, before, some (fixedLine before), hbefore, ?_, fun heq => ?_, rfl⟩
    · rw [List.getElem?_map, hbefore, Option.map_some]
    · exact hne (Option.some_inj.mp heq).symm

/-- A fix of a text keeps its lines with their ends, and makes each line from the old one by editing
the spans of the accesses that are to be replaced, and no others. -/
structure IsSpanExact (text : List Char) (fixed : Fixed) : Prop where
  length_eq : (lines fixed.text).length = (lines text).length
  /-- Every line has the end that it had. -/
  endings_eq : (textLines fixed.text).map EndedLine.ending = (textLines text).map EndedLine.ending
  endsWithLineFeed_eq : endsWithLineFeed fixed.text = endsWithLineFeed text
  /-- Each line is the old one with disjoint spans replaced: those of the accesses of the script on
  it that are by brackets, not written to and not followed by a further subscript. -/
  edited : ∀ i line, (lines text)[i]? = some line → ∃ edits new,
    (lines fixed.text)[i]? = some new ∧ Edited 0 line edits new ∧
      (edits.Pairwise fun a b => a.stop ≤ b.start) ∧
        ∀ e, e ∈ edits ↔ ∃ a ∈ Script.accesses (lines text), a.line = i + 1 ∧
          IsReplaced line a ∧ e = editOf a
  /-- The changes are told in order. -/
  pairwise : fixed.changes.Pairwise fun a b => a.line < b.line
  /-- The changes are the lines that differ. -/
  mem_changes_iff : ∀ c, c ∈ fixed.changes ↔ ∃ i before after, (lines text)[i]? = some before ∧
    (lines fixed.text)[i]? = some after ∧ before ≠ after ∧ c = ⟨i + 1, before, some after⟩

/-- **The fix of dictionary accesses is exact in its spans** on every text whose line ends are all
alike. -/
theorem dictAccess_isSpanExact (h : IsUniform text) :
    IsSpanExact text (dictAccess.apply text) where
  length_eq := by rw [lines_dictAccess, List.length_map]
  endings_eq := map_ending_dictAccess h
  endsWithLineFeed_eq := by
    rw [Text.endsWithLineFeed_eq, map_ending_dictAccess h, ← Text.endsWithLineFeed_eq]
  edited := fun _ _ => exists_edits_of_line text
  pairwise := pairwise_changes dictAccess text
  mem_changes_iff := fun _ => mem_changes_dictAccess_iff

/-- A line with two reads and a comment, and a line with a further subscript that is not ended. -/
theorem dictAccess_isSpanExact_comment :
    IsUniform "if a[\"k\"] in b['name']: # c[\"k\"]\r\nx = a[\"k\"][0]".toList ∧
    IsSpanExact "if a[\"k\"] in b['name']: # c[\"k\"]\r\nx = a[\"k\"][0]".toList
      (dictAccess.apply "if a[\"k\"] in b['name']: # c[\"k\"]\r\nx = a[\"k\"][0]".toList) ∧
    (dictAccess.apply "if a[\"k\"] in b['name']: # c[\"k\"]\r\nx = a[\"k\"][0]".toList).text =
      "if a.get(\"k\", null) in b.get(\"name\", \"\"): # c[\"k\"]\r\nx = a[\"k\"][0]".toList := by
  have huniform : IsUniform "if a[\"k\"] in b['name']: # c[\"k\"]\r\nx = a[\"k\"][0]".toList := by
    decide +kernel
  exact ⟨huniform, dictAccess_isSpanExact huniform, by decide +kernel⟩

/-! ## Keywords -/

/-- Words of the language that are no names, and that an expression may follow. -/
def keywords : List String :=
  ["in", "return", "and", "or", "not", "if", "elif", "else", "while", "await", "is", "as", "match",
    "when"]

/-- No segment of a dotted path is a keyword. -/
def isKeywordFree (path : List Char) : Bool :=
  (splitAt '.' path).all fun segment => !keywords.contains (str segment)

/-- An array literal of one text behind a path with a keyword in it, written like an access by
brackets on a line of code, outside of literals. -/
structure ArrayLiteral (line : List Char) extends Spot line where
  /-- The path goes no further to the left. -/
  isWhole : ∀ u v, before = u ++ v → v ≠ [] → ¬ isPath (v ++ access.receiver) = true
  hasKeyword : isKeywordFree access.receiver = false

/-! ## What is rewritten -/

/-- The fix rewrites an access of a text. -/
def IsRewritten (text : List Char) (a : Access) : Prop :=
  a ∈ Script.accesses (lines text) ∧
    ∃ line, (line, a.line) ∈ (lines text).zipIdx 1 ∧ IsReplaced line a

section line

variable {text line : List Char} {i : Nat} {ps : List (Placed Subscript)}

/-- The accesses of a line that the fix rewrites are its open tokens. -/
theorem isRewritten_iff (h : (lines text)[i]? = some line)
    (hps : Scan Subscript.text [] (Line.code line) ps) {a : Access} :
    IsRewritten text a ∧ a.line = i + 1 ↔
      ∃ x ∈ ps, isOpen x = true ∧ accessOfSubscript (Line.code line) (i + 1) x = a := by
  have hnumber : (line, i + 1) ∈ (lines text).zipIdx 1 := by
    rw [List.mk_mem_zipIdx_iff_le_and_getElem?_sub]
    exact ⟨by omega, h⟩
  rw [← mem_replaced_iff hps, ← mem_accesses_iff hnumber, IsRewritten]
  constructor
  · rintro ⟨⟨ha, l, hl, hreplaced⟩, hline⟩
    rw [hline, List.mk_mem_zipIdx_iff_le_and_getElem?_sub] at hl
    obtain rfl : line = l := Option.some_inj.mp (h.symm.trans hl.2)
    exact ⟨⟨ha, hline⟩, hreplaced⟩
  · rintro ⟨⟨ha, hline⟩, hreplaced⟩
    exact ⟨⟨ha, line, hline ▸ hnumber, hreplaced⟩, hline⟩

/-- Every rewritten access is an open token of one of the lines. -/
theorem IsRewritten.exists_token {a : Access} (h : IsRewritten text a) :
    ∃ i line ps x, (lines text)[i]? = some line ∧ Scan Subscript.text [] (Line.code line) ps ∧ x ∈ ps ∧
      isOpen x = true ∧ accessOfSubscript (Line.code line) (i + 1) x = a := by
  obtain ⟨line, hnumbered, -⟩ := h.2
  rw [List.mk_mem_zipIdx_iff_le_and_getElem?_sub] at hnumbered
  obtain ⟨hpos, hline⟩ := hnumbered
  obtain ⟨ps, hps⟩ := spells_bracketAccess.exists_scan (Line.code line)
  have hnumber : a.line = a.line - 1 + 1 := by omega
  obtain ⟨x, hx, hopen, haccess⟩ := (isRewritten_iff hline hps).mp ⟨h, hnumber⟩
  exact ⟨a.line - 1, line, ps, x, hline, hps, hx, hopen, haccess⟩

/-- A token of the scan of a line as an access at its place. -/
def spotOf (hps : Scan Subscript.text [] (Line.code line) ps) (x : Placed Subscript) (hx : x ∈ ps)
    (hopen : isOpen x = true) : Spot line where
  before := x.before
  access := x.token
  after := x.after
  code_eq := by simpa using (hps.eq_append x hx).1
  outside := by
    rw [isInsideLiteral_eq_of_mem hps hx, read_before_of_isOpen hopen]
    rfl

/-- A token that ends where an array literal ends has the same receiver. -/
theorem ArrayLiteral.receiver_eq (t : ArrayLiteral line)
    (hps : Scan Subscript.text [] (Line.code line) ps) {x : Placed Subscript} (hx : x ∈ ps)
    (hstop : width (x.before ++ x.token.text) = t.stop) :
    x.token.receiver = t.access.receiver := by
  have hcode := (hps.eq_append x hx).1
  rw [List.nil_append] at hcode
  obtain ⟨hname, -⟩ := t.spec_of_stop_eq hcode hstop
  rcases List.append_eq_append_iff.mp hname with ⟨v, hbefore, hreceiver⟩ | ⟨v, hbefore, hreceiver⟩
  · by_cases hv : v = []
    · rw [hreceiver, hv, List.nil_append]
    · exact absurd (hreceiver ▸ x.token.isPath) (t.isWhole _ v hbefore hv)
  · by_cases hv : v = []
    · rw [hreceiver, hv, List.nil_append]
    · exact absurd (hreceiver ▸ t.access.isPath) (not_isPath_of_mem hps hx hbefore hv)

end line

/-! ## Receivers -/

variable {text line : List Char} {i : Nat}

/-- The receiver of a rewritten access is an identifier path. -/
theorem IsRewritten.isPath {a : Access} (h : IsRewritten text a) :
    isPath a.receiver.toList = true := by
  obtain ⟨i, line, ps, x, -, -, -, -, rfl⟩ := h.exists_token
  simpa [accessOfSubscript] using x.token.isPath

/-- The line after the fix. -/
theorem getElem?_lines_dictAccess (h : (lines text)[i]? = some line) (new : List Char) :
    (lines (dictAccess.apply text).text)[i]? = some new ↔ fixedLine line = new := by
  rw [lines_dictAccess, List.getElem?_map, h, Option.map_some, Option.some_inj]

/-- If no receiver has a keyword in it, an array literal is kept: a call in its place would have the
keyword in its receiver. -/
theorem ArrayLiteral.fixedLine_eq_kept
    (h : ∀ a, IsRewritten text a → isKeywordFree a.receiver.toList = true)
    (hline : (lines text)[i]? = some line) (t : ArrayLiteral line) : fixedLine line = t.kept := by
  rw [t.fixedLine_eq_kept_iff_forall]
  intro m hm hstop
  obtain ⟨ps, hps⟩ := spells_bracketAccess.exists_scan (Line.code line)
  rw [openReads_eq hps] at hm
  obtain ⟨x, hx, rfl⟩ := List.mem_map.mp hm
  obtain ⟨hx, hopen⟩ := List.mem_filter.mp hx
  have hrewritten := (isRewritten_iff hline hps).mpr ⟨x, hx, hopen, rfl⟩
  have hfree := h _ hrewritten.1
  have hkeyword := t.hasKeyword
  rw [← t.receiver_eq hps hx hstop] at hkeyword
  simp [accessOfSubscript, hkeyword] at hfree

/-- What is rewritten with a keyword in its receiver is an array literal that is not kept. -/
theorem IsRewritten.exists_literal {a : Access} (h : IsRewritten text a)
    (hkeyword : isKeywordFree a.receiver.toList = false) :
    ∃ (i : Nat) (line : List Char), (lines text)[i]? = some line ∧
      ∃ t : ArrayLiteral line, fixedLine line ≠ t.kept := by
  obtain ⟨i, line, ps, x, hline, hps, hx, hopen, rfl⟩ := h.exists_token
  have hreceiver : isKeywordFree x.token.receiver = false := by
    simpa [accessOfSubscript] using hkeyword
  let t : ArrayLiteral line :=
    { spotOf hps x hx hopen with
      isWhole := fun _ _ => not_isPath_of_mem hps hx
      hasKeyword := hreceiver }
  refine ⟨i, line, hline, t, fun hkept => ?_⟩
  rw [t.fixedLine_eq_kept_iff_forall, openReads_eq hps] at hkept
  exact hkept _ (List.mem_map_of_mem (List.mem_filter.mpr ⟨hx, hopen⟩)) rfl

/-- **Receivers are names** exactly when the array literals behind keywords are kept: the receivers
of what is rewritten are identifier paths, none has a keyword in it exactly when every such literal
of the text is kept, and one of them is kept exactly when the reader of accesses does not see it, or
an assignment operator or a further subscript follows. -/
theorem dictAccess_receiver_iff (text : List Char) :
    (∀ a, IsRewritten text a → isPath a.receiver.toList = true) ∧
    ((∀ a, IsRewritten text a → isKeywordFree a.receiver.toList = true) ↔
      ∀ (i : Nat) (line : List Char), (lines text)[i]? = some line → ∀ t : ArrayLiteral line,
        (lines (dictAccess.apply text).text)[i]? = some t.kept) ∧
    ∀ (i : Nat) (line : List Char), (lines text)[i]? = some line → ∀ t : ArrayLiteral line,
      ((lines (dictAccess.apply text).text)[i]? = some t.kept ↔ ¬ (t.IsRead ∧ t.IsFree)) := by
  refine ⟨fun a h => h.isPath, ⟨fun h i line hline t => ?_, fun h a ha => ?_⟩,
    fun i line hline t => ?_⟩
  · rw [getElem?_lines_dictAccess hline]
    exact t.fixedLine_eq_kept h hline
  · by_contra hkeyword
    obtain ⟨i, line, hline, t, hkept⟩ := ha.exists_literal (Bool.not_eq_true _ ▸ hkeyword)
    exact hkept ((getElem?_lines_dictAccess hline _).mp (h i line hline t))
  · rw [getElem?_lines_dictAccess hline]
    exact t.fixedLine_eq_kept_iff

theorem isMark_quotation : Quoting.IsMark '"' := .inl rfl

theorem isBlank_of_mem_nil : ∀ c ∈ ([] : List Char), isBlank c = true := by simp

/-- The array `["x"]` as it is written behind a keyword. -/
def arrayAfter (keyword : List Char) (h : isPath keyword = true) : Subscript :=
  ⟨keyword, [' '], [], ⟨'"', ['x'], isMark_quotation, by simp, by simp⟩, [], h, by simp [isBlank],
    isBlank_of_mem_nil, isBlank_of_mem_nil⟩

/-- An array literal with a subscript is kept. -/
theorem dictAccess_receiver_iff_subscript :
    ∃ t : ArrayLiteral "return [\"x\"][0]".toList, t.kept = "return [\"x\"][0]".toList ∧
      (lines (dictAccess.apply "return [\"x\"][0]".toList).text)[0]? = some t.kept := by
  let t : ArrayLiteral "return [\"x\"][0]".toList :=
    { before := [], access := arrayAfter "return".toList (by decide), after := "[0]".toList
      code_eq := by decide +kernel, outside := by decide +kernel
      isWhole := by simp
      hasKeyword := by decide +kernel }
  have hline : (lines "return [\"x\"][0]".toList)[0]? = some "return [\"x\"][0]".toList := by
    decide +kernel
  refine ⟨t, by decide +kernel, ?_⟩
  exact ((dictAccess_receiver_iff _).2.2 0 _ hline t).mpr (by decide +kernel)

/-- The array literal that a function returns is replaced by a call, and so is the one that a loop
runs over. -/
theorem dictAccess_rewrites_array :
    (∃ a, IsRewritten "return [\"x\"]".toList a ∧ isKeywordFree a.receiver.toList = false) ∧
    (∃ t : ArrayLiteral "return [\"x\"]".toList,
      (lines (dictAccess.apply "return [\"x\"]".toList).text)[0]? ≠ some t.kept) ∧
    (dictAccess.apply "return [\"x\"]".toList).text = "return.get(\"x\", null)".toList ∧
    (dictAccess.apply "for x in [\"a\"]:".toList).text = "for x in.get(\"a\", null):".toList := by
  let a : Access := ⟨"return", "x", 1, 0, 12, .bracket, false, false⟩
  let t : ArrayLiteral "return [\"x\"]".toList :=
    { before := [], access := arrayAfter "return".toList (by decide), after := []
      code_eq := by decide +kernel, outside := by decide +kernel
      isWhole := by simp
      hasKeyword := by decide +kernel }
  have ha : IsRewritten "return [\"x\"]".toList a := by
    refine ⟨by decide +kernel, "return [\"x\"]".toList, by decide +kernel, ?_, ?_⟩
    · decide +kernel
    · decide +kernel
  exact ⟨⟨a, ha, by decide +kernel⟩, ⟨t, by decide +kernel⟩, by decide +kernel, by decide +kernel⟩

end GodotLint.Fixer
