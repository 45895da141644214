import GodotLint.Check.Dictionaries
import GodotLint.Proofs.Fix.Spot

/-!
# Reading fixed accesses back

The call that the fix writes for a read is found by the reader of accesses, with the receiver and
the key that the read had, exactly when the key has no double quotation mark and the place of the
call is clear (`dictAccess_readBack_iff`). The fix writes the key between double quotation marks
however it was written before, so it cuts such a key short. A place is not clear if a double
quotation mark of an earlier key has moved it into a literal, or if what looks like a call begins
inside of a literal before it and ends behind its start. Neither is so where no rewritten key of the
line has a double quotation mark and no parenthesis opens inside of a literal.
-/

namespace GodotLint.Fixer

open Text Script Pattern

/-! ## Calls -/

/-- The beginning of the call that stands in for a subscript. -/
def getCall (a : Subscript) (h : '"' ∉ a.quoted.key) : Call where
  receiver := a.receiver
  method := ['g', 'e', 't']
  opening := []
  quoted := ⟨'"', a.quoted.key, .inl rfl, a.quoted.key_ne_nil, clean_of_not_mem h⟩
  isPath := a.isPath
  isMethod := .inl rfl
  opening_blank := by simp

variable {a b : Subscript} {y : Call} {s t u v z : List Char}

theorem exists_callFor_eq (h : '"' ∉ a.quoted.key) :
    ∃ t, callFor a = (getCall a h).text ++ t := by
  refine ⟨", ".toList ++ ((KeyDefault.ofKey (str a.quoted.key)).expression.toList ++ [')']), ?_⟩
  simp [callFor_eq, getCall, Call.text, Call.tail, QuotedKey.text]

theorem callFor_ne_nil (a : Subscript) : callFor a ≠ [] := by
  simp [callFor_eq]

/-- A call that is read in the place of the one that stands in for a subscript has a key between
double quotation marks. -/
theorem mark_eq_of_append_eq (h : y.text ++ u = callFor a ++ v)
    (hreceiver : y.receiver = a.receiver) : y.quoted.mark = '"' := by
  rw [callFor_eq, Call.text, hreceiver, List.append_assoc, List.append_assoc,
    List.append_cancel_left_eq] at h
  simp only [Call.tail, List.cons_append, String.reduceToList, List.cons.injEq, true_and,
    List.append_assoc, List.nil_append] at h
  have hmethod : y.method ++ _ = ['g', 'e', 't'] ++ _ := h
  obtain ⟨-, h⟩ := List.append_inj hmethod y.length_method
  rw [List.cons.injEq] at h
  cases hopening : y.opening with
  | nil =>
      simp only [hopening, QuotedKey.text, List.nil_append, List.cons_append, List.cons.injEq] at h
      exact h.2.1
  | cons c o =>
      have hc := y.opening_blank c (by simp [hopening])
      simp only [hopening, List.cons_append, List.cons.injEq] at h
      rw [h.2.1] at hc
      exact absurd hc (by decide)

/-- The path and the method of the call that stands in for a subscript. -/
theorem mem_receiver_get (a : Subscript) :
    ∀ c ∈ a.receiver ++ ".get".toList, isPathChar c = true := by
  intro c hc
  rcases List.mem_append.mp hc with hc | hc
  · exact mem_isPathFrom a.isPath c hc
  · simp only [String.reduceToList, List.mem_cons, List.not_mem_nil, or_false] at hc
    rcases hc with rfl | rfl | rfl | rfl <;> decide

/-- A parenthesis follows the path and the method. -/
theorem exists_callFor_eq_paren (a : Subscript) :
    ∃ t, callFor a = (a.receiver ++ ".get".toList) ++ '(' :: t := by
  refine ⟨'"' :: (a.quoted.key ++ ("\", ".toList ++
    ((KeyDefault.ofKey (str a.quoted.key)).expression.toList ++ [')']))), ?_⟩
  simp [callFor_eq]

/-- No parenthesis stands in a path. -/
theorem stopsAt_paren (s : List Char) : StopsAt (fun c => isPathChar c = true) ('(' :: s) :=
  stopsAt_cons.mpr (by decide)

/-- No subscript begins where a call does. -/
theorem callFor_append_ne_text (h : callFor a ++ s = b.text ++ t) : False := by
  obtain ⟨r, hr⟩ := exists_callFor_eq_paren a
  rw [hr, List.append_assoc _ ('(' :: r), List.cons_append, Subscript.text,
    List.append_assoc b.receiver] at h
  obtain ⟨-, h⟩ := append_inj_of_stop (mem_receiver_get a) (mem_isPathFrom b.isPath)
    (stopsAt_paren _) (b.stopsAt_tail t) h
  obtain ⟨c, w, htail, hc⟩ := b.exists_tail_eq
  rw [htail, List.cons_append, List.cons.injEq] at h
  obtain ⟨rfl, -⟩ := h
  rcases hc with hc | hc
  · exact absurd hc (by decide)
  · exact absurd hc (by decide)

/-- A call that begins before the call that stands in for a subscript has a longer path, or ends
before it, or has it inside of its key. -/
theorem crossing_callFor (h : v ++ (callFor a ++ z) = y.text ++ s) :
    isPath (v ++ a.receiver) = true ∨ (∃ t, v = y.text ++ t) ∨
      ∃ k, v = y.receiver ++ '.' :: (y.method ++ '(' :: (y.opening ++ y.quoted.mark :: k)) ∧
        ∀ c ∈ k, c ≠ y.quoted.mark ∧ c ≠ '\\' := by
  obtain ⟨c, r, hreceiver, hc, -⟩ := exists_cons_of_isPath a.isPath
  have hident := isIdentChar_of_isIdentStart hc
  have htext : y.text ++ s = (y.receiver ++ '.' :: y.method) ++
      '(' :: (y.opening ++ (y.quoted.text ++ s)) := by
    simp [Call.text, Call.tail]
  rw [htext] at h
  rcases List.append_eq_append_iff.mp h with ⟨t, hname, hcall⟩ | ⟨v, rfl, hparen⟩
  · -- both names go on to the parenthesis
    left
    obtain ⟨w, hw⟩ := exists_callFor_eq_paren a
    rw [hw, List.append_assoc _ ('(' :: w), List.cons_append] at hcall
    obtain ⟨rfl, -⟩ := append_inj_of_stop (mem_receiver_get a)
      (fun d hd => y.mem_receiver_method d (by simp [hname, hd])) (stopsAt_paren _)
      (stopsAt_paren _) hcall
    rw [← List.append_assoc] at hname
    obtain ⟨hpath, -⟩ := List.append_inj' hname (by simp [y.length_method])
    exact hpath ▸ y.isPath
  · right
    simp only [callFor_eq, hreceiver, List.cons_append] at hparen
    have hne : c ≠ '(' := (isPathChar_plain (isPathChar_of_isIdentChar hident)).2.2.2.1
    obtain ⟨v, rfl, hopening⟩ := exists_of_append_cons (s := []) (by simp) hne hparen.symm
    rcases crossing_key y.opening_blank hident hopening with ⟨t, rfl, -⟩ | ⟨k, rfl, hk⟩
    · exact .inl ⟨t, by simp [Call.text, Call.tail]⟩
    · exact .inr ⟨k, by simp, hk⟩

/-! ## The accesses of a line with a call -/

/-- A place at which a call can be read: it lies in the code, outside of literals, and no match that
starts before it reaches over it. -/
structure IsClear (line : List Char) (place : Nat) : Prop where
  inCode : place < width (Line.code line)
  outside : Line.isInsideLiteral (Line.code line) place = false
  uncovered : ∀ m ∈ callAccess.findAll (Line.code line), ¬ (m.start < place ∧ place < m.stop)

instance (line : List Char) (place : Nat) : Decidable (IsClear line place) :=
  decidable_of_iff (place < width (Line.code line) ∧
    Line.isInsideLiteral (Line.code line) place = false ∧
      ∀ m ∈ callAccess.findAll (Line.code line), ¬ (m.start < place ∧ place < m.stop))
    ⟨fun h => ⟨h.1, h.2.1, h.2.2⟩, fun h => ⟨h.inCode, h.outside, h.uncovered⟩⟩

section line

variable {line before rest : List Char} {number : Nat}

/-- No access by brackets is read in the place of a call. -/
theorem form_ne_bracket (hline : line = before ++ (callFor a ++ rest)) {x : Access}
    (hx : x ∈ accessesOfLine line number) (hcolumn : x.column = width before) :
    x.form ≠ .bracket := by
  intro hform
  obtain ⟨comment, hcode, -⟩ := Line.code_spec line
  obtain ⟨ps, hps⟩ := spells_bracketAccess.exists_scan (Line.code line)
  obtain ⟨ys, hys⟩ := spells_callAccess.exists_scan (Line.code line)
  rcases (mem_accessesOfLine_iff hps hys).mp hx with ⟨y, hy, -, rfl⟩ | ⟨y, -, -, rfl⟩
  · have hplace := (hps.eq_append y hy).1
    rw [List.nil_append] at hplace
    rw [hplace, List.append_assoc, List.append_assoc, hline] at hcode
    obtain ⟨-, htext⟩ := append_inj_of_width hcode hcolumn.symm
    exact callFor_append_ne_text htext
  · simp only [accessOfCall] at hform
    split_ifs at hform

/-- A call that is read in the place of the one that stands in for a subscript, with its receiver
and its key, is read at a clear place, and the key has no double quotation mark. -/
theorem isClear_of_mem {ys : List (Placed Call)} {y : Placed Call}
    (hline : line = before ++ (callFor a ++ rest)) (hys : Scan Call.text [] (Line.code line) ys)
    (hy : y ∈ ys) (hout : isOutside y = true) (hcolumn : width y.before = width before)
    (hreceiver : y.token.receiver = a.receiver) (hkey : y.token.quoted.key = a.quoted.key) :
    '"' ∉ a.quoted.key ∧ IsClear line (width before) := by
  have hplace := (hys.eq_append y hy).1
  rw [List.nil_append] at hplace
  refine ⟨?_, ?_, ?_, ?_⟩
  · obtain ⟨comment, hcode, -⟩ := Line.code_spec line
    rw [hplace, List.append_assoc, List.append_assoc, hline] at hcode
    obtain ⟨-, htext⟩ := append_inj_of_width hcode hcolumn.symm
    rw [← hkey, ← mark_eq_of_append_eq htext.symm hreceiver]
    exact fun hmem => (y.token.quoted.clean _ hmem).1 rfl
  · have hpos := width_pos (Call.text_ne_nil y.token)
    rw [← hcolumn, hplace]
    simp only [width_append]
    omega
  · rw [← hcolumn, isInsideLiteral_eq_of_mem hys hy]
    simpa [isOutside] using hout
  · rw [spells_callAccess.findAll_eq hys, List.forall_mem_map]
    rintro w hw ⟨hstart, hstop⟩
    change width w.before < width before at hstart
    change width before < width (w.before ++ w.token.text) at hstop
    rw [← hcolumn] at hstart hstop
    rcases hys.row.eq_or_apart hw hy with rfl | hle | hle
    · exact hstart.false
    · omega
    · rw [width_append] at hle
      omega

/-- A call whose key has no double quotation mark is met at a clear place. -/
theorem exists_mem_of_isClear {ys : List (Placed Call)}
    (hline : line = before ++ (callFor a ++ rest)) (hys : Scan Call.text [] (Line.code line) ys)
    (hkey : '"' ∉ a.quoted.key) (hclear : IsClear line (width before)) :
    Quoting.read .outside before = .outside ∧ ∃ after, ⟨before, getCall a hkey, after⟩ ∈ ys := by
  obtain ⟨comment, hcode, hunmarked, -⟩ := Line.code_spec line
  obtain ⟨w, hw⟩ := prefix_of_width_le (hline.symm.trans hcode) hclear.inCode.le
  have hread : Quoting.read .outside before = .outside := by
    have := hclear.outside
    rw [← hw, Line.isInsideLiteral_append] at this
    exact Quoting.isInside_eq_false_iff.mp this
  obtain ⟨t, ht⟩ := exists_callFor_eq hkey
  -- no comment begins before the call or in it
  have hcall : Line.Unmarked .outside (before ++ (getCall a hkey).text) := by
    have hblock := (block_callFor hkey (by simp) (by simp) (by simp) :
      Block (fun q c => ¬ (q = .outside ∧ c = '#')) (callFor a)).everywhere
    rw [ht, Line.everywhere_append] at hblock
    rw [← hw] at hunmarked
    refine Line.everywhere_append.mpr ⟨(Line.everywhere_append.mp hunmarked).1, ?_⟩
    rw [hread]
    exact hblock.1
  obtain ⟨r, hr⟩ := Line.exists_code_append hcall (t ++ rest)
  have hcode' : [] ++ Line.code line = before ++ (getCall a hkey).text ++ r := by
    rw [List.nil_append, ← hr, hline, ht]
    simp
  refine ⟨hread, r, ?_⟩
  rcases hys.mem_or_hidden spells_callAccess hcode' List.nil_prefix with
    hmem | ⟨x, hx, hstart, hstop⟩
  · exact hmem
  · have hmatch : x.toMatch Call.text Call.groups ∈ callAccess.findAll (Line.code line) := by
      rw [spells_callAccess.findAll_eq hys]
      exact List.mem_map_of_mem hx
    exact absurd ⟨hstart, hstop⟩ (hclear.uncovered _ hmatch)

/-- The call that stands in for a subscript is read back exactly when the key has no double
quotation mark and the place is clear. -/
theorem exists_get_iff (hline : line = before ++ (callFor a ++ rest)) :
    (∃ x ∈ accessesOfLine line number, x.column = width before ∧ x.form = .get ∧
      x.receiver = str a.receiver ∧ x.key = str a.quoted.key) ↔
        '"' ∉ a.quoted.key ∧ IsClear line (width before) := by
  obtain ⟨ps, hps⟩ := spells_bracketAccess.exists_scan (Line.code line)
  obtain ⟨ys, hys⟩ := spells_callAccess.exists_scan (Line.code line)
  constructor
  · rintro ⟨x, hx, hcolumn, hform, hreceiver, hkey⟩
    rcases (mem_accessesOfLine_iff hps hys).mp hx with ⟨y, -, -, rfl⟩ | ⟨y, hy, hout, rfl⟩
    · cases hform
    · exact isClear_of_mem hline hys hy hout hcolumn (String.ofList_injective hreceiver)
        (String.ofList_injective hkey)
  · rintro ⟨hkey, hclear⟩
    obtain ⟨hread, after, hmem⟩ := exists_mem_of_isClear hline hys hkey hclear
    refine ⟨accessOfCall number ⟨before, getCall a hkey, after⟩, ?_, rfl, rfl, rfl, rfl⟩
    refine (mem_accessesOfLine_iff hps hys).mpr (.inr ⟨_, hmem, ?_, rfl⟩)
    simp [isOutside, hread, Quoting.isInside]

end line

/-! ## Places that are clear -/

section clear

variable {line pre post : List Char} {ps qs : List (Placed Subscript)}

/-- Inside of a key, read from outside of literals before the call. -/
theorem read_call_opening (y : Call) {k : List Char}
    (hk : ∀ c ∈ k, c ≠ y.quoted.mark ∧ c ≠ '\\') : Quoting.read .outside
      (y.receiver ++ '.' :: (y.method ++ '(' :: (y.opening ++ y.quoted.mark :: k))) =
        .inside y.quoted.mark := by
  have hname : Quoting.read .outside (y.receiver ++ '.' :: y.method) = .outside :=
    Quoting.read_outside fun c hc => (isPathChar_plain (y.mem_receiver_method c hc)).1
  have hparen : Quoting.next .outside '(' = .outside := by decide
  have hopening : Quoting.read .outside y.opening = .outside :=
    Quoting.read_outside fun c hc => (isBlank_plain (y.opening_blank c hc)).1
  have htext : y.receiver ++ '.' :: (y.method ++ '(' :: (y.opening ++ y.quoted.mark :: k)) =
      (y.receiver ++ '.' :: y.method) ++ '(' :: (y.opening ++ y.quoted.mark :: k) := by simp
  rw [htext, Quoting.read_append, hname, Quoting.read_cons, hparen, Quoting.read_append, hopening,
    Quoting.read_cons, Quoting.next_outside_of_mark y.quoted.isMark, Quoting.read_inside hk]

/-- Text without closing brackets at the end of a text was there before the fix. -/
theorem exists_eq_append_of_spliced (h : Row Subscript.text pre post ps) {s v : List Char}
    (hv : ')' ∉ v ∧ ']' ∉ v) (hs : spliced pre post ps = s ++ v) : ∃ u, post = u ++ v := by
  induction h generalizing s with
  | nil => exact ⟨s, hs⟩
  | @cons pre gap rest after a ps _ ih =>
      rw [spliced_cons] at hs
      rcases List.append_eq_append_iff.mp hs with ⟨r, -, hr⟩ | ⟨r, hgap, rfl⟩
      · obtain ⟨u, rfl⟩ := ih hr
        exact ⟨gap ++ a.text ++ u, by simp⟩
      · -- the call or the subscript would end in `r`
        obtain rfl : r = [] := by
          by_contra hr
          obtain ⟨t, c, ht, hc⟩ := exists_rewritten_eq_append ⟨pre ++ gap, a, after⟩
          have hlast := congrArg List.getLast? hgap
          rw [ht, ← List.append_assoc, List.getLast?_concat, List.getLast?_append_of_ne_nil _ hr]
            at hlast
          have hmem := List.mem_append_left (spliced (pre ++ gap ++ a.text) rest ps)
            (List.mem_of_getLast? hlast.symm)
          rcases hc with rfl | rfl
          · exact hv.1 hmem
          · exact hv.2 hmem
        obtain ⟨u, hu⟩ := ih (s := []) rfl
        exact ⟨gap ++ a.text ++ u, by rw [List.append_assoc (gap ++ a.text) u, ← hu]⟩

/-- No call reaches over the place of another one that is outside of literals, if no path leads up
to the place and no parenthesis opens inside of a literal before it. -/
theorem not_covers {w : Placed Call} {before rest : List Char}
    (h : w.before ++ (w.token.text ++ w.after) = before ++ (callFor a ++ rest))
    (hread : Quoting.read .outside before = .outside) (hbare : Line.Bare '(' before)
    (hpath : ∀ u v, before = u ++ v → v ≠ [] → ¬ isPath (v ++ a.receiver) = true) :
    ¬ (width w.before < width before ∧ width before < width (w.before ++ w.token.text)) := by
  rintro ⟨hstart, hstop⟩
  obtain ⟨v, rfl⟩ := prefix_of_width_le h hstart.le
  have hv : v ≠ [] := by
    rintro rfl
    simp at hstart
  rw [List.append_assoc w.before, List.append_cancel_left_eq] at h
  rcases crossing_callFor h.symm with hname | ⟨t, rfl⟩ | ⟨k, rfl, hk⟩
  · exact hpath _ _ rfl hv hname
  · simp only [width_append] at hstop
    omega
  · -- the parenthesis of the call would be inside of a literal
    have hname : Quoting.read .outside (w.before ++ (w.token.receiver ++ '.' :: w.token.method)) =
        .outside :=
      hbare _ '(' (w.token.opening ++ w.token.quoted.mark :: k) (by simp) rfl
    have hbefore := Quoting.eq_outside_of_read
      (fun c hc => (isPathChar_plain (w.token.mem_receiver_method c hc)).1) hname
    rw [Quoting.read_append, hbefore, read_call_opening w.token hk] at hread
    cases hread

/-- What stands before the call of a token, told by the tokens before it. -/
theorem exists_row_fixedPart (hps : Scan Subscript.text [] (Line.code line) ps)
    {x : Placed Subscript} (hx : x ∈ ps) : ∃ qs, (∀ y ∈ qs, y ∈ ps) ∧
      Row Subscript.text [] x.before qs ∧ fixedPart line 0 x.before = spliced [] x.before qs := by
  obtain ⟨comment, hline, -⟩ := Line.code_spec line
  have hx' := (hps.eq_append x hx).1
  have hline' : line = [] ++ (x.before ++ (x.token.text ++ x.after ++ comment)) := by
    rw [List.nil_append] at hx'
    rw [hx'] at hline
    simpa using hline
  have h := openTokens_filter hps
  exact ⟨_, fun y hy => (List.mem_filter.mp (List.mem_filter.mp hy).1).1, h.row_filter hline',
    h.fixedPart_eq hline'⟩

section before

variable (hps : Scan Subscript.text [] (Line.code line) ps) (hkeys : KeysPlain ps)
  {x : Placed Subscript} (hx : x ∈ ps)

include hps hkeys hx

/-- What stands before the call of an open token is read to outside of literals. -/
theorem read_fixedPart (hopen : isOpen x = true) :
    Quoting.read .outside (fixedPart line 0 x.before) = .outside := by
  obtain ⟨qs, hqs, hrow, hpart⟩ := exists_row_fixedPart hps hx
  have hsame := read_spliced hrow fun y hy => hkeys y (hqs y hy)
  rw [hpart]
  exact hsame.trans (read_before_of_isOpen hopen)

/-- What is allowed in the code and in every call is allowed before the call of a token. -/
theorem everywhere_fixedPart {P : Quoting → Char → Prop}
    (hP : Line.Everywhere P .outside (Line.code line))
    (hcalls : ∀ y ∈ ps, isOpen y = true → Line.Everywhere P .outside (callFor y.token)) :
    Line.Everywhere P .outside (fixedPart line 0 x.before) := by
  obtain ⟨qs, hqs, hrow, hpart⟩ := exists_row_fixedPart hps hx
  have hcode := (hps.eq_append x hx).1
  rw [List.nil_append, List.append_assoc] at hcode
  rw [hcode] at hP
  rw [hpart]
  exact everywhere_spliced hrow (fun y hy => hkeys y (hqs y hy)) (fun y hy => hcalls y (hqs y hy))
    (Line.everywhere_append.mp hP).1

/-- If no parenthesis opens inside of a literal of the code, none does so before the call of a
token. -/
theorem bare_fixedPart (hbare : Line.Bare '(' (Line.code line)) :
    Line.Bare '(' (fixedPart line 0 x.before) := by
  refine everywhere_fixedPart hps hkeys hx hbare fun y hy hopen => ?_
  have hcode := (hps.eq_append y hy).1
  rw [List.nil_append, List.append_assoc] at hcode
  have hparen : '(' ∉ y.token.quoted.key :=
    not_mem_key_of_bare (read_before_of_isOpen hopen) (hcode ▸ hbare)
  refine (block_callFor (hkeys y hy hopen) (by simp) (by simp) fun c hc hc' => ?_).everywhere
  exact absurd (hc' ▸ hc) hparen

/-- The call of an open token belongs to the code of the fixed line. -/
theorem exists_code_fixedLine (hopen : isOpen x = true) {rest : List Char}
    (hfixed : fixedLine line = fixedPart line 0 x.before ++ (callFor x.token ++ rest)) :
    ∃ r, Line.code (fixedLine line) = fixedPart line 0 x.before ++ (callFor x.token ++ r) := by
  obtain ⟨comment, -, hunmarked, -⟩ := Line.code_spec line
  have hcalls : ∀ y ∈ ps, isOpen y = true → Line.Unmarked .outside (callFor y.token) :=
    fun y hy hy' => (block_callFor (hkeys y hy hy') (by simp) (by simp) (by simp)).everywhere
  have hcall : Line.Unmarked .outside (fixedPart line 0 x.before ++ callFor x.token) := by
    refine Line.everywhere_append.mpr ⟨everywhere_fixedPart hps hkeys hx hunmarked hcalls, ?_⟩
    rw [read_fixedPart hps hkeys hx hopen]
    exact hcalls x hx hopen
  obtain ⟨r, hr⟩ := Line.exists_code_append hcall rest
  rw [List.append_assoc, ← hfixed, List.append_assoc] at hr
  exact ⟨r, hr⟩

/-- **Places are clear** on a line in whose code no parenthesis opens inside of a literal, if no key
that is rewritten has a double quotation mark. -/
theorem isClear_of_bare (hbare : Line.Bare '(' (Line.code line)) (hopen : isOpen x = true)
    {rest : List Char}
    (hfixed : fixedLine line = fixedPart line 0 x.before ++ (callFor x.token ++ rest)) :
    IsClear (fixedLine line) (width (fixedPart line 0 x.before)) := by
  obtain ⟨r, hr⟩ := exists_code_fixedLine hps hkeys hx hopen hfixed
  have hread := read_fixedPart hps hkeys hx hopen
  refine ⟨?_, ?_, ?_⟩
  · have := width_pos (callFor_ne_nil x.token)
    rw [hr]
    simp only [width_append]
    omega
  · rw [hr, Line.isInsideLiteral_append, hread]
    rfl
  · obtain ⟨ws, hws⟩ := spells_callAccess.exists_scan (Line.code (fixedLine line))
    rw [spells_callAccess.findAll_eq hws, List.forall_mem_map]
    intro w hw
    have hcode := (hws.eq_append w hw).1
    rw [List.nil_append, List.append_assoc, hr] at hcode
    have hbare' := bare_fixedPart hps hkeys hx hbare
    refine not_covers hcode.symm hread hbare' fun u v huv hv hpath => ?_
    have hplain : ')' ∉ v ∧ ']' ∉ v := by
      have hmem := mem_isPathFrom hpath
      constructor <;> intro hv' <;>
        exact absurd (hmem _ (List.mem_append_left _ hv')) (by decide)
    obtain ⟨qs, -, hrow, hpart⟩ := exists_row_fixedPart hps hx
    obtain ⟨u', hu'⟩ := exists_eq_append_of_spliced hrow hplain (hpart ▸ huv)
    exact not_isPath_of_mem hps hx hu' hv hpath

end before

end clear

/-! ## Accesses of a fixed text -/

/-- The place of the call that stands in for a match, on the fixed line. -/
def placeOf (line : List Char) (m : Match) : Nat :=
  width (fixedPart line 0 (takeBytes m.start line))

/-- A read of a line that the fix has replaced is read back: an access by `get` with its receiver
and its key stands in its place, and no access that may fail does. -/
structure IsReadBack (text line : List Char) (number : Nat) (m : Match) : Prop where
  found : ∃ x ∈ Script.accesses (lines (dictAccess.apply text).text), x.line = number ∧
    x.column = placeOf line m ∧ x.form = .get ∧ x.receiver = str (m.group 1) ∧
      x.key = str (m.group 2 ++ m.group 3)
  safe : ∀ x ∈ Script.accesses (lines (dictAccess.apply text).text), x.line = number →
    x.column = placeOf line m → ∀ names, Check.isUnsafe names x = false

section text

variable {text line : List Char} {number : Nat} {ps : List (Placed Subscript)}

/-- The accesses of a fixed text on a line are those of the fixed line. -/
theorem mem_accesses_dictAccess_iff (h : (line, number) ∈ (lines text).zipIdx 1) {x : Access} :
    x ∈ Script.accesses (lines (dictAccess.apply text).text) ∧ x.line = number ↔
      x ∈ accessesOfLine (fixedLine line) number := by
  rw [lines_dictAccess]
  refine mem_accesses_iff ?_
  rw [List.zipIdx_map]
  exact List.mem_map_of_mem h

/-- An open read is an open token, and its call stands on the fixed line. -/
theorem exists_token_of_mem (hps : Scan Subscript.text [] (Line.code line) ps) {m : Match}
    (hm : m ∈ openReads line) : ∃ x ∈ ps, isOpen x = true ∧
      x.toMatch Subscript.text Subscript.groups = m ∧
        placeOf line m = width (fixedPart line 0 x.before) ∧
          ∃ rest, fixedLine line = fixedPart line 0 x.before ++ (callFor x.token ++ rest) := by
  obtain ⟨comment, hcode, -⟩ := Line.code_spec line
  rw [openReads_eq hps] at hm
  obtain ⟨x, hx, rfl⟩ := List.mem_map.mp hm
  obtain ⟨hx', hopen⟩ := List.mem_filter.mp hx
  have hcut : line = x.before ++ (x.token.text ++ (x.after ++ comment)) := by
    have hplaced := (hps.eq_append x hx').1
    rw [List.nil_append] at hplaced
    rw [hplaced] at hcode
    simpa using hcode
  have hfixed := fixedLine_eq_of_mem (openTokens_filter hps) hx hcut
  rw [List.append_assoc] at hfixed
  refine ⟨x, hx', hopen, rfl, ?_, _, hfixed⟩
  have htake := takeBytes_width_append x.before (x.token.text ++ (x.after ++ comment))
  rw [← hcut] at htake
  exact congrArg (fun before => width (fixedPart line 0 before)) htake

/-- A read is read back if its call is. -/
theorem isReadBack_iff (hline : (line, number) ∈ (lines text).zipIdx 1) {x : Placed Subscript}
    {before rest : List Char} (hfixed : fixedLine line = before ++ (callFor x.token ++ rest))
    (hplace : placeOf line (x.toMatch Subscript.text Subscript.groups) = width before) :
    IsReadBack text line number (x.toMatch Subscript.text Subscript.groups) ↔
      '"' ∉ x.token.quoted.key ∧ IsClear (fixedLine line) (width before) := by
  rw [← exists_get_iff hfixed, ← hplace]
  constructor
  · rintro ⟨⟨y, hy, hnumber, hcolumn, hform, hreceiver, hkey⟩, -⟩
    rw [group_receiver] at hreceiver
    rw [group_key] at hkey
    exact ⟨y, (mem_accesses_dictAccess_iff hline).mp ⟨hy, hnumber⟩, hcolumn, hform, hreceiver, hkey⟩
  · rintro ⟨y, hy, hcolumn, hform, hreceiver, hkey⟩
    obtain ⟨hy, hnumber⟩ := (mem_accesses_dictAccess_iff hline).mpr hy
    refine ⟨⟨y, hy, hnumber, hcolumn, hform, ?_, ?_⟩, fun z hz hnumber' hcolumn' names => ?_⟩
    · rw [group_receiver, hreceiver]
    · rw [group_key, hkey]
    · have hmem := (mem_accesses_dictAccess_iff hline).mp ⟨hz, hnumber'⟩
      have hform' := form_ne_bracket hfixed hmem (hcolumn'.trans hplace)
      simp [Check.isUnsafe, hform']

/-- **Reading back.** A read that the fix has replaced is read back exactly when its key has no
double quotation mark and the place of the call is clear, and so always on a line in which no
rewritten key has a double quotation mark and no parenthesis of the code opens inside of a
literal. -/
theorem dictAccess_readBack_iff (hline : (line, number) ∈ (lines text).zipIdx 1) {m : Match}
    (hm : m ∈ openReads line) :
    (IsReadBack text line number m ↔
      '"' ∉ m.group 2 ++ m.group 3 ∧ IsClear (fixedLine line) (placeOf line m)) ∧
    ((∀ m ∈ openReads line, '"' ∉ m.group 2 ++ m.group 3) → Line.Bare '(' (Line.code line) →
      IsReadBack text line number m) := by
  obtain ⟨ps, hps⟩ := spells_bracketAccess.exists_scan (Line.code line)
  obtain ⟨x, hx, hopen, rfl, hplace, rest, hfixed⟩ := exists_token_of_mem hps hm
  have hread := isReadBack_iff hline hfixed hplace
  rw [group_key, hplace]
  refine ⟨hread, fun hkeys hbare => hread.mpr ?_⟩
  have hkeys' := (keysPlain_iff hps).mpr hkeys
  exact ⟨hkeys' x hx hopen, isClear_of_bare hps hkeys' hx hbare hopen hfixed⟩

/-- Reads with keys between either marks are read back, with a literal and a comment beside them. -/
theorem dictAccess_readBack_iff_marks :
    (openReads "x = a['k'] + b.c [ \"n_id\" ] + \"d['e']\" # f[\"g\"]".toList).length = 2 ∧
    ∀ m ∈ openReads "x = a['k'] + b.c [ \"n_id\" ] + \"d['e']\" # f[\"g\"]".toList,
      IsReadBack "if h:\nx = a['k'] + b.c [ \"n_id\" ] + \"d['e']\" # f[\"g\"]\n".toList
        "x = a['k'] + b.c [ \"n_id\" ] + \"d['e']\" # f[\"g\"]".toList 2 m :=
  ⟨by decide +kernel, fun _ hm => (dictAccess_readBack_iff (by decide +kernel) hm).2
    (by decide +kernel) (by decide +kernel)⟩

/-- A key with a double quotation mark is not read back, nor is a read behind a literal that begins
like a call. -/
theorem dictAccess_loses_key :
    (∃ m ∈ openReads "x = a['say \"hi\"']".toList,
      ¬ IsReadBack "x = a['say \"hi\"']".toList "x = a['say \"hi\"']".toList 1 m) ∧
    ∃ m ∈ openReads "x = \"b.get('\" + a[\"k\"] + \"')\"".toList,
      ¬ IsReadBack "x = \"b.get('\" + a[\"k\"] + \"')\"".toList
        "x = \"b.get('\" + a[\"k\"] + \"')\"".toList 1 m := by
  have lost : ∀ {t : List Char}, (∃ m ∈ openReads t,
      ∀ x ∈ Script.accesses (lines (dictAccess.apply t).text),
        x.key ≠ str (m.group 2 ++ m.group 3)) → ∃ m ∈ openReads t, ¬ IsReadBack t t 1 m := by
    rintro t ⟨m, hm, hkey⟩
    refine ⟨m, hm, ?_⟩
    rintro ⟨⟨x, hx, -, -, -, -, hx'⟩, -⟩
    exact hkey x hx hx'
  exact ⟨lost (by decide +kernel), lost (by decide +kernel)⟩

end text

end GodotLint.Fixer
