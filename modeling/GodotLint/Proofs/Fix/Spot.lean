import GodotLint.Proofs.Fix.Part
import GodotLint.Proofs.Fix.Relexing

/-!
# Accesses at a place and assignment targets

What becomes of an access by brackets that is written at some place of a line, outside of literals
(`Spot`). It stays between what was before it and what was after it exactly when the reader of
accesses does not report it as a read: no match ends where it ends, or an assignment operator or a
further subscript follows (`Spot.fixedLine_eq_kept_iff`).
-/

namespace GodotLint.Fixer

open Text Script Pattern

/-! ## Accesses that overlap -/

/-- Two subscripts that overlap end at the same place if both start outside of literals. -/
theorem append_text_eq_of_overlap {a b : Subscript} {p q s t : List Char}
    (h : p ++ (a.text ++ s) = q ++ (b.text ++ t)) (hq : Quoting.read .outside q = .outside)
    (hp : Quoting.read .outside p = .outside) (hle : width p ≤ width q)
    (hlt : width q < width (p ++ a.text)) : p ++ a.text = q ++ b.text := by
  obtain ⟨v, rfl⟩ := prefix_of_width_le h hle
  rw [List.append_assoc p, List.append_cancel_left_eq] at h
  have hcross : v ++ (b.receiver ++ (b.tail ++ t)) = a.text ++ s := by
    rw [h, Subscript.text, List.append_assoc]
  rcases crossing b.isPath hcross with hpath | ⟨w, rfl⟩ | ⟨k, rfl, hclean⟩
  · -- the names are one path, and so the subscripts are one
    obtain ⟨c, hc⟩ := exists_text_eq_of_isPath hpath
    rw [← List.append_assoc, ← hc] at h
    rw [Subscript.unambiguous h, hc, List.append_assoc]
  · simp only [width_append] at hlt
    omega
  · rw [Quoting.read_append, hp, read_opening a hclean] at hq
    cases hq

/-- Text without a closing bracket is not reached by open tokens, so it stays behind what is fixed
before it. -/
theorem fixedPart_append_of_not_mem {line u v post : List Char} (hline : line = u ++ (v ++ post))
    (hv : ']' ∉ v) : fixedPart line 0 (u ++ v) = fixedPart line 0 u ++ v := by
  obtain ⟨qs, h⟩ := exists_openTokens line
  have hline' : line = [] ++ (u ++ v ++ post) := by simp [hline]
  have hstop : ∀ x ∈ qs, width (x.before ++ x.token.text) ≤ width (u ++ v) →
      width (x.before ++ x.token.text) ≤ width u := by
    intro x hx hle
    obtain ⟨w, hw⟩ := (h.row.prefix_before x hx).2
    exact stop_le_of_not_mem (prefix_of_width_le (hw.trans hline') hle) hv
  rw [← width_nil, h.fixedPart_append hline', List.nil_append, h.fixedPart_eq_self hline]
  · intro x hx hin
    have := width_token_pos x
    simp only [liesIn, Bool.and_eq_true, decide_eq_true_eq, ← width_append] at hin
    have := hstop x hx hin.2
    omega
  · intro x hx hin
    simp only [liesIn, Bool.and_eq_true, decide_eq_true_eq, width_nil, Nat.zero_add] at hin
    exact .inl (hstop x hx hin.2)

/-- What is fixed before a subscript goes on to the end of its name. -/
theorem fixedPart_append_receiver {line u post : List Char} {a : Subscript}
    (hline : line = u ++ (a.text ++ post)) :
    fixedPart line 0 (u ++ a.receiver) = fixedPart line 0 u ++ a.receiver := by
  have hname : line = u ++ (a.receiver ++ (a.tail ++ post)) := by
    rw [hline, Subscript.text, List.append_assoc]
  refine fixedPart_append_of_not_mem hname fun hmem => ?_
  exact absurd (mem_isPathFrom a.isPath _ hmem) (by decide)

/-- The path of a token of a scan is not longer than the token says. -/
theorem not_isPath_of_mem {code u v : List Char} (h : Scan Subscript.text [] code ps)
    {x : Placed Subscript} (hx : x ∈ ps) (hbefore : x.before = u ++ v) (hv : v ≠ []) :
    ¬ isPath (v ++ x.token.receiver) = true := by
  intro hpath
  have hpos := width_pos hv
  have hpos' := width_token_pos x
  have hwidth : width x.before = width u + width v := by rw [hbefore, width_append]
  have hx' := (h.eq_append x hx).1
  obtain ⟨b, hb⟩ := exists_text_eq_of_isPath hpath
  have hcode : [] ++ code = u ++ b.text ++ x.after := by
    rw [hx', hbefore, hb]
    simp
  rcases h.mem_or_hidden spells_bracketAccess hcode List.nil_prefix with
    hmem | ⟨y, hy, hstart, hstop⟩
  · -- two tokens of the scan would overlap
    rcases h.row.eq_or_apart hx hmem with heq | hle | hle
    · have := congrArg (width ·.before) heq
      simp only at this
      omega
    · simp only at hle
      omega
    · simp only [hb, width_append] at hle hpos'
      omega
  · rcases h.row.eq_or_apart hx hy with rfl | hle | hle
    · omega
    · omega
    · -- the token before would end in the path
      have hy' := (h.eq_append y hy).1.symm.trans hx'
      rw [List.append_assoc x.before] at hy'
      have hprefix := prefix_of_width_le hy' hle
      rw [hbefore] at hprefix
      have hbracket : ']' ∉ v := by
        intro hmem
        have := mem_isPathFrom hpath ']' (List.mem_append_left _ hmem)
        exact absurd this (by decide)
      have := stop_le_of_not_mem hprefix hbracket
      omega

/-! ## An access at a place -/

/-- An access by brackets that is written on a line of code, outside of literals. -/
structure Spot (line : List Char) where
  before : List Char
  access : Subscript
  after : List Char
  code_eq : Line.code line = before ++ (access.text ++ after)
  outside : Line.isInsideLiteral (Line.code line) (width before) = false

namespace Spot

variable {line : List Char} {x : Placed Subscript}

/-- The byte offset just past the access. -/
def stop (s : Spot line) : Nat := width (s.before ++ s.access.text)

/-- A match of the reader ends where the access ends. -/
def IsRead (s : Spot line) : Prop := ∃ m ∈ bracketAccess.findAll (Line.code line), m.stop = s.stop

/-- What follows the access leaves it a read: no assignment operator, and no further subscript. -/
def IsFree (s : Spot line) : Prop :=
  assignmentAfter.occursIn s.after = false ∧ subscriptFollows s.after = false

instance (s : Spot line) : Decidable s.IsRead :=
  inferInstanceAs (Decidable (∃ m ∈ bracketAccess.findAll (Line.code line), _))

instance (s : Spot line) : Decidable s.IsFree := inferInstanceAs (Decidable (_ ∧ _))

/-- The line with the access as it was and everything around it fixed. -/
def kept (s : Spot line) : List Char :=
  fixedPart line 0 s.before ++ s.access.text ++ fixedPart line s.stop (dropBytes s.stop line)

theorem read_before (s : Spot line) : Quoting.read .outside s.before = .outside := by
  have h := s.outside
  rw [s.code_eq, Line.isInsideLiteral_append] at h
  exact Quoting.isInside_eq_false_iff.mp h

/-- The line around the access. -/
theorem exists_line_eq (s : Spot line) :
    ∃ after, line = s.before ++ (s.access.text ++ after) ∧ dropBytes s.stop line = after := by
  obtain ⟨comment, hline, -⟩ := Line.code_spec line
  have hcut : line = s.before ++ s.access.text ++ (s.after ++ comment) := by
    have hcode := congrArg (· ++ comment) s.code_eq
    exact hline.trans (by simpa using hcode)
  refine ⟨_, by rwa [List.append_assoc] at hcut, ?_⟩
  have hdrop := dropBytes_width_append (s.before ++ s.access.text) (s.after ++ comment)
  rwa [← hcut] at hdrop

/-- A token that ends where the access ends differs from it at most in the beginning of its path,
starts outside of literals, and is followed by the same text. -/
theorem spec_of_stop_eq (s : Spot line)
    (hcode : Line.code line = x.before ++ x.token.text ++ x.after)
    (hstop : width (x.before ++ x.token.text) = s.stop) :
    x.before ++ x.token.receiver = s.before ++ s.access.receiver ∧ x.token.tail = s.access.tail ∧
      isOutside x = true ∧ x.after = s.after := by
  rw [s.code_eq, ← List.append_assoc] at hcode
  obtain ⟨htext, hafter⟩ := append_inj_of_width hcode.symm hstop
  obtain ⟨hname, htail⟩ := Subscript.unambiguous_right htext
  refine ⟨hname, htail, ?_, hafter⟩
  have hread : Quoting.read .outside (x.before ++ x.token.receiver) = .outside := by
    rw [hname, Quoting.read_append, s.read_before]
    exact Quoting.read_outside fun c hc =>
      (isPathChar_plain (mem_isPathFrom s.access.isPath c hc)).1
  have hbefore := Quoting.eq_outside_of_read
    (fun c hc => (isPathChar_plain (mem_isPathFrom x.token.isPath c hc)).1) hread
  rw [isOutside, hbefore]
  rfl

/-- A match that ends where the access ends is an open read exactly when what follows leaves it a
read. -/
theorem isOpenRead_iff (s : Spot line) {m : Match}
    (hm : m ∈ bracketAccess.findAll (Line.code line)) (hstop : m.stop = s.stop) :
    isOpenRead (Line.code line) m = true ↔ s.IsFree := by
  obtain ⟨ps, hps⟩ := spells_bracketAccess.exists_scan (Line.code line)
  rw [spells_bracketAccess.findAll_eq hps] at hm
  obtain ⟨x, hx, rfl⟩ := List.mem_map.mp hm
  obtain ⟨-, -, hout, hafter⟩ := s.spec_of_stop_eq (by simpa using (hps.eq_append x hx).1) hstop
  rw [isOpenRead_toMatch hps hx, isOpen, hout, hafter, IsFree]
  simp

/-- An open read that ends elsewhere does not reach into the access. -/
theorem apart_of_stop_ne (s : Spot line) {m : Match} (hm : m ∈ openReads line)
    (hstop : m.stop ≠ s.stop) : m.stop ≤ width s.before ∨ s.stop ≤ m.start := by
  obtain ⟨ps, hps⟩ := spells_bracketAccess.exists_scan (Line.code line)
  obtain ⟨hm, hopen⟩ := List.mem_filter.mp hm
  rw [spells_bracketAccess.findAll_eq hps] at hm
  obtain ⟨x, hx, rfl⟩ := List.mem_map.mp hm
  rw [isOpenRead_toMatch hps hx] at hopen
  have hread := read_before_of_isOpen hopen
  have hcode : x.before ++ (x.token.text ++ x.after) = s.before ++ (s.access.text ++ s.after) := by
    rw [← s.code_eq, ← List.append_assoc, ← (hps.eq_append x hx).1, List.nil_append]
  by_contra! hover
  obtain ⟨hbefore, hafter⟩ := hover
  change width s.before < width (x.before ++ x.token.text) at hbefore
  change width x.before < width (s.before ++ s.access.text) at hafter
  refine hstop (congrArg width ?_ : width (x.before ++ x.token.text) = _)
  rcases le_total (width x.before) (width s.before) with hle | hle
  · exact append_text_eq_of_overlap hcode s.read_before hread hle hbefore
  · exact (append_text_eq_of_overlap hcode.symm hread s.read_before hle hafter).symm

/-- An access stays exactly when no open read ends where it ends. -/
theorem fixedLine_eq_kept_iff_forall (s : Spot line) :
    fixedLine line = s.kept ↔ ∀ m ∈ openReads line, m.stop ≠ s.stop := by
  obtain ⟨after, hline, hafter⟩ := s.exists_line_eq
  rw [kept, hafter]
  constructor
  · -- the call and the subscript differ just past the name
    intro heq m hm hstop
    obtain ⟨qs, h⟩ := exists_openTokens line
    obtain ⟨x, hx, rfl⟩ := List.mem_map.mp (h.reads ▸ hm)
    obtain ⟨r, hr⟩ := (h.row.prefix_before x hx).2
    rw [List.nil_append] at hr
    change width (x.before ++ x.token.text) = _ at hstop
    rw [stop] at hstop
    have hcut := hr.trans (hline.trans (List.append_assoc ..).symm)
    obtain ⟨htext, rfl⟩ := append_inj_of_width hcut hstop
    obtain ⟨hname, htail⟩ := Subscript.unambiguous_right htext
    have hline' : line = x.before ++ (x.token.text ++ r) := by rw [← hr, List.append_assoc]
    have hsame : fixedPart line 0 x.before ++ x.token.receiver =
        fixedPart line 0 s.before ++ s.access.receiver := by
      rw [← fixedPart_append_receiver hline', hname, fixedPart_append_receiver hline]
    rw [fixedLine_eq_of_mem h hx hline', stop, htext] at heq
    refine callFor_append_ne x.token (fixedPart line (width (s.before ++ s.access.text)) r)
      (fixedPart line (width (s.before ++ s.access.text)) r) ?_
    refine (List.append_right_inj (fixedPart line 0 x.before)).mp ?_
    rw [← List.append_assoc, heq, Subscript.text, Subscript.text, htail]
    simp only [← List.append_assoc, hsame]
  · intro h
    exact fixedLine_eq_of_forall hline fun m hm => s.apart_of_stop_ne hm (h m hm)

/-- **An access stays** exactly when the reader does not see it, or what follows is no place for a
read. -/
theorem fixedLine_eq_kept_iff (s : Spot line) :
    fixedLine line = s.kept ↔ ¬ (s.IsRead ∧ s.IsFree) := by
  rw [s.fixedLine_eq_kept_iff_forall]
  constructor
  · rintro hne ⟨⟨m, hm, hstop⟩, hfree⟩
    exact hne m (List.mem_filter.mpr ⟨hm, (s.isOpenRead_iff hm hstop).mpr hfree⟩) hstop
  · intro hnot m hm hstop
    obtain ⟨hm, hopen⟩ := List.mem_filter.mp hm
    exact hnot ⟨⟨m, hm, hstop⟩, (s.isOpenRead_iff hm hstop).mp hopen⟩

end Spot

end GodotLint.Fixer

/-!
## Assignment targets

An access by brackets that is assigned to has to stay, as a call is no target. It does stay, between
what was before it and what was after it, exactly when the reader of accesses sees the operator
(`dictAccess_target_iff`). The reader overlooks `**=`, of which it knows only the end, and an `=` at
the end of the code, as it asks for a character behind it.
-/

namespace GodotLint.Fixer

open Text Script Pattern

/-! ## Targets -/

/-- The operators that assign. -/
def assignmentOperators : List String :=
  ["=", "+=", "-=", "*=", "/=", "%=", "**=", "&=", "|=", "^=", "<<=", ">>="]

/-- An access by brackets that is assigned to, on a line. -/
structure Target (line : List Char) where
  before : List Char
  access : Subscript
  /-- The blanks before the operator. -/
  gap : List Char
  operator : String
  /-- The code after the operator. -/
  value : List Char
  code_eq : Line.code line = before ++ (access.text ++ (gap ++ (operator.toList ++ value)))
  outside : Line.isInsideLiteral (Line.code line) (width before) = false
  gap_blank : ∀ c ∈ gap, isBlank c = true
  mem_operators : operator ∈ assignmentOperators
  /-- The operator is not the beginning of a comparison. -/
  not_comparison : operator = "=" → value.head? ≠ some '='

namespace Target

variable {line : List Char}

/-- The byte offset just past the access. -/
def stop (t : Target line) : Nat := width (t.before ++ t.access.text)

/-- A match of the reader ends where the access ends. -/
def IsRead (t : Target line) : Prop := ∃ m ∈ bracketAccess.findAll (Line.code line), m.stop = t.stop

/-- The reader does not see the operator. -/
def IsOverlooked (t : Target line) : Prop :=
  t.operator = "**=" ∨ t.operator = "=" ∧ t.value = []

instance (t : Target line) : Decidable t.IsRead :=
  inferInstanceAs (Decidable (∃ m ∈ bracketAccess.findAll (Line.code line), _))

instance (t : Target line) : Decidable t.IsOverlooked := inferInstanceAs (Decidable (_ ∨ _))

/-- The line with the access as it was and everything around it fixed. -/
def kept (t : Target line) : List Char :=
  fixedPart line 0 t.before ++ t.access.text ++ fixedPart line t.stop (dropBytes t.stop line)

end Target

/-! ## The operator -/

/-- An operator starts with a character that is neither blank nor a bracket. -/
theorem exists_cons_of_mem_operators {operator : String} (h : operator ∈ assignmentOperators) :
    ∃ c r, operator.toList = c :: r ∧ isBlank c = false ∧ c ≠ '[' := by
  simp only [assignmentOperators, List.mem_cons, List.not_mem_nil, or_false] at h
  rcases h with rfl | rfl | rfl | rfl | rfl | rfl | rfl | rfl | rfl | rfl | rfl | rfl <;>
    exact ⟨_, _, rfl, by decide, by decide⟩

/-- The reader sees every operator but `**=` and an `=` at the end. -/
theorem startsAssignment_operator_iff {operator : String} {value : List Char}
    (h : operator ∈ assignmentOperators) (hvalue : operator = "=" → value.head? ≠ some '=') :
    startsAssignment (operator.toList ++ value) = true ↔
      ¬ (operator = "**=" ∨ operator = "=" ∧ value = []) := by
  simp only [assignmentOperators, List.mem_cons, List.not_mem_nil, or_false] at h
  rcases h with rfl | rfl | rfl | rfl | rfl | rfl | rfl | rfl | rfl | rfl | rfl | rfl
  · cases value with
    | nil => decide
    | cons c value =>
        have hc : c ≠ '=' := by simpa using hvalue rfl
        simpa [startsAssignment] using hc
  all_goals simp [startsAssignment]

/-! ## The access that is assigned to -/

namespace Target

variable {line : List Char}

/-- The access at its place. -/
def spot (t : Target line) : Spot line :=
  ⟨t.before, t.access, t.gap ++ (t.operator.toList ++ t.value), t.code_eq, t.outside⟩

/-- What follows leaves an access a read exactly when the operator is overlooked. -/
theorem isFree_spot_iff (t : Target line) : t.spot.IsFree ↔ t.IsOverlooked := by
  obtain ⟨c, r, hoperator, hblank, hc⟩ := exists_cons_of_mem_operators t.mem_operators
  have hafter : trimStart t.spot.after = t.operator.toList ++ t.value := by
    change trimStart (t.gap ++ (t.operator.toList ++ t.value)) = _
    rw [hoperator]
    exact trimStart_append_cons t.gap_blank hblank
  have hfollows : subscriptFollows t.spot.after = false := by
    rw [subscriptFollows, hafter, hoperator]
    simpa using hc
  have hstarts := startsAssignment_operator_iff t.mem_operators t.not_comparison
  rw [Spot.IsFree, occursIn_assignmentAfter_iff hfollows, hafter, IsOverlooked,
    ← not_not (a := _ ∨ _), ← hstarts, Bool.not_eq_true]
  exact and_iff_left hfollows

/-- A match that ends where the access ends is an open read exactly when the operator is
overlooked. -/
theorem isOpenRead_iff (t : Target line) {m : Match}
    (hm : m ∈ bracketAccess.findAll (Line.code line)) (hstop : m.stop = t.stop) :
    isOpenRead (Line.code line) m = true ↔ t.IsOverlooked :=
  (t.spot.isOpenRead_iff hm hstop).trans t.isFree_spot_iff

/-- An access that is assigned to stays exactly when no open read ends where it ends. -/
theorem fixedLine_eq_kept_iff (t : Target line) :
    fixedLine line = t.kept ↔ ∀ m ∈ openReads line, m.stop ≠ t.stop :=
  t.spot.fixedLine_eq_kept_iff_forall

end Target

/-- **Targets stay** exactly when the reader of accesses sees the operator or does not read the
access at all: an access that is assigned to is kept between what was before it and what was after
it. -/
theorem dictAccess_target_iff {text line : List Char} {i : Nat} (h : (lines text)[i]? = some line)
    (t : Target line) : (lines (dictAccess.apply text).text)[i]? = some t.kept ↔
      ¬ (t.IsRead ∧ t.IsOverlooked) := by
  rw [lines_dictAccess, List.getElem?_map, h, Option.map_some, Option.some_inj,
    t.fixedLine_eq_kept_iff]
  constructor
  · rintro hne ⟨⟨m, hm, hstop⟩, hover⟩
    exact hne m (List.mem_filter.mpr ⟨hm, (t.isOpenRead_iff hm hstop).mpr hover⟩) hstop
  · intro hnot m hm hstop
    obtain ⟨hm, hopen⟩ := List.mem_filter.mp hm
    exact hnot ⟨⟨m, hm, hstop⟩, (t.isOpenRead_iff hm hstop).mp hopen⟩

/-- An access that a value is added to stays, and the read behind it is replaced. -/
theorem dictAccess_target_iff_sum :
    ∃ t : Target "a[\"k\"] += b[\"v\"]".toList, t.kept = "a[\"k\"] += b.get(\"v\", null)".toList ∧
      (lines (dictAccess.apply "if c:\na[\"k\"] += b[\"v\"]".toList).text)[1]? = some t.kept := by
  let access : Subscript :=
    ⟨['a'], [], [], ⟨'"', ['k'], .inl rfl, by simp, by simp⟩, [], rfl, by simp, by simp, by simp⟩
  let t : Target "a[\"k\"] += b[\"v\"]".toList :=
    ⟨[], access, [' '], "+=", " b[\"v\"]".toList, by decide +kernel, by decide +kernel,
      by simp [isBlank], by decide, by simp⟩
  have hline : (lines "if c:\na[\"k\"] += b[\"v\"]".toList)[1]? =
      some "a[\"k\"] += b[\"v\"]".toList := by decide +kernel
  exact ⟨t, by decide +kernel, (dictAccess_target_iff hline t).mpr (by decide +kernel)⟩

/-- An access that is raised to a power is replaced by a call, and so is one before an `=` that ends
the line. -/
theorem dictAccess_rewrites_target :
    (∃ t : Target "a[\"k\"] **= 2".toList,
      (lines (dictAccess.apply "a[\"k\"] **= 2".toList).text)[0]? ≠ some t.kept) ∧
    (dictAccess.apply "a[\"k\"] **= 2".toList).text = "a.get(\"k\", null) **= 2".toList ∧
    (dictAccess.apply "a[\"k\"] =".toList).text = "a.get(\"k\", null) =".toList := by
  let access : Subscript :=
    ⟨['a'], [], [], ⟨'"', ['k'], .inl rfl, by simp, by simp⟩, [], rfl, by simp, by simp, by simp⟩
  let t : Target "a[\"k\"] **= 2".toList :=
    ⟨[], access, [' '], "**=", " 2".toList, by decide +kernel, by decide +kernel,
      by simp [isBlank], by decide, by simp⟩
  exact ⟨⟨t, by decide +kernel⟩, by decide +kernel, by decide +kernel⟩

end GodotLint.Fixer
