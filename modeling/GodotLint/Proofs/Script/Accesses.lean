import GodotLint.Proofs.Ordering
import GodotLint.Proofs.Pattern.Needles
import GodotLint.Proofs.Pattern.Parts
import GodotLint.Proofs.Pattern.Scan
import GodotLint.Proofs.Script.AccessText
import GodotLint.Proofs.Text.Lines
import GodotLint.Script.Access

/-!
# Accesses of a line and assignments after them

Whether an access is written to is told by what follows it. Unless a further subscript follows,
the pattern `assignmentAfter` asks for one of the assignment operators after blanks
(`occursIn_assignmentAfter_iff`), and `startsAssignment` lists the operators that it knows: all of
one character and `=`, both shifts, and `=` itself where some character other than `=` comes next.
-/

namespace GodotLint.Script

open Text Pattern

/-- Whether a text starts with an assignment operator that the reader of accesses knows. -/
def startsAssignment : List Char → Bool
  | '=' :: c :: _ => c != '='
  | '<' :: '<' :: '=' :: _ => true
  | '>' :: '>' :: '=' :: _ => true
  | c :: '=' :: _ => "-+*/%|&^".toList.contains c
  | _ => false

/-- Whether a further subscript follows: the first character that is not blank opens a bracket. -/
def subscriptFollows (s : List Char) : Bool := (trimStart s).head? == some '['

/-! ## Blanks at the start -/

/-- Dropping the blanks at the start stops at the first other character. -/
theorem trimStart_append_cons {g r : List Char} {c : Char} (hg : ∀ x ∈ g, isBlank x = true)
    (hc : isBlank c = false) : trimStart (g ++ c :: r) = c :: r := by
  rw [trimStart, List.dropWhile_append_of_pos hg]
  simp [hc]

/-- Dropping the blanks at the start goes no further than a character that is not blank. -/
theorem trimStart_append_of_not_blank {c : Char} (hc : isBlank c = false) (s r : List Char) :
    trimStart (s ++ c :: r) = trimStart s ++ c :: r := by
  rw [trimStart, trimStart, List.dropWhile_append]
  split_ifs with h
  · rw [List.isEmpty_iff] at h
    simp [h, hc]
  · rfl

/-- The first character that is not blank, of two texts one after the other. -/
theorem head?_trimStart_append (s t : List Char) :
    (trimStart (s ++ t)).head? = (trimStart s).head?.or (trimStart t).head? := by
  rw [trimStart, List.dropWhile_append]
  split_ifs with h
  · rw [List.isEmpty_iff] at h
    simp [trimStart, h]
  · rw [List.isEmpty_iff] at h
    rw [List.head?_append_of_ne_nil _ h, trimStart]
    cases hs : (s.dropWhile isBlank).head? with
    | none => exact absurd (List.head?_eq_none_iff.mp hs) h
    | some c => rfl

/-- A text is its blanks at the start and what is left without them. -/
theorem exists_blanks_append_trimStart (s : List Char) :
    ∃ g, s = g ++ trimStart s ∧ ∀ x ∈ g, isBlank x = true := by
  refine ⟨s.takeWhile isBlank, (List.takeWhile_append_dropWhile).symm, ?_⟩
  intro x hx
  exact (List.mem_takeWhile_imp hx)

/-! ## The operators -/

/-- The pattern of the operators. -/
def operators : Pattern :=
  choice [.char '=' ++ charNotOf "=", charOf "-+*/%|&^" ++ .char '=', lit "<<=", lit ">>="]

variable {pre w post : List Char} {gs : List (Nat × Span)}

theorem accepts_operators : operators.Accepts pre w post gs ↔
    ((∃ c, w = ['=', c] ∧ c ≠ '=') ∨ (∃ c ∈ "-+*/%|&^".toList, w = [c, '=']) ∨
      w = ['<', '<', '='] ∨ w = ['>', '>', '=']) ∧ gs = [] := by
  change ((char '=' ++ charNotOf "=").Accepts pre w post gs ∨
    (charOf "-+*/%|&^" ++ char '=').Accepts pre w post gs ∨
    (lit "<<=").Accepts pre w post gs ∨ (lit ">>=").Accepts pre w post gs) ↔ _
  have hequals : (char '=' ++ charNotOf "=").Accepts pre w post gs ↔
      (∃ c, w = ['=', c] ∧ c ≠ '=') ∧ gs = [] := by
    rw [accepts_append_of_left fun _ _ _ _ => accepts_char]
    simp only [accepts_charNotOf]
    constructor
    · rintro ⟨_, _, rfl, rfl, ⟨c, rfl, hc⟩, rfl⟩
      exact ⟨⟨c, rfl, by simpa using hc⟩, rfl⟩
    · rintro ⟨⟨c, rfl, hc⟩, rfl⟩
      exact ⟨['='], [c], rfl, rfl, ⟨c, rfl, by simpa using hc⟩, rfl⟩
  have hcombined : (charOf "-+*/%|&^" ++ char '=').Accepts pre w post gs ↔
      (∃ c ∈ "-+*/%|&^".toList, w = [c, '=']) ∧ gs = [] := by
    rw [accepts_append_of_left fun _ _ _ _ => accepts_charOf]
    simp only [accepts_char]
    constructor
    · rintro ⟨_, _, rfl, ⟨c, rfl, hc⟩, rfl, rfl⟩
      exact ⟨⟨c, hc, rfl⟩, rfl⟩
    · rintro ⟨⟨c, hc, rfl⟩, rfl⟩
      exact ⟨[c], ['='], rfl, ⟨c, rfl, hc⟩, rfl, rfl⟩
  rw [hequals, hcombined, accepts_lit, accepts_lit]
  simp only [← or_and_right]
  rfl

/-- Some operator stands at the start of a text exactly when `startsAssignment` says so. -/
theorem startsAssignment_iff (pre : List Char) {s : List Char} : startsAssignment s = true ↔
    ∃ w post, s = w ++ post ∧ operators.Accepts pre w post [] := by
  simp only [accepts_operators, and_true]
  constructor
  · intro h
    unfold startsAssignment at h
    split at h
    · rename_i c r
      exact ⟨['=', c], r, rfl, .inl ⟨c, rfl, by simpa using h⟩⟩
    · rename_i r
      exact ⟨['<', '<', '='], r, rfl, by simp⟩
    · rename_i r
      exact ⟨['>', '>', '='], r, rfl, by simp⟩
    · rename_i c r _
      exact ⟨[c, '='], r, rfl, .inr (.inl ⟨c, by simpa using h, rfl⟩)⟩
    · cases h
  · rintro ⟨w, post, rfl, ⟨c, rfl, hc⟩ | ⟨c, hc, rfl⟩ | rfl | rfl⟩
    · simpa [startsAssignment] using hc
    · simp only [String.reduceToList, List.mem_cons, List.not_mem_nil, or_false] at hc
      rcases hc with rfl | rfl | rfl | rfl | rfl | rfl | rfl | rfl <;> rfl
    · rfl
    · rfl

/-- An operator does not start with a blank. -/
theorem exists_cons_of_accepts_operators (h : operators.Accepts pre w post gs) :
    ∃ c r, w = c :: r ∧ isBlank c = false ∧ c ≠ '[' := by
  rcases (accepts_operators.mp h).1 with ⟨c, rfl, -⟩ | ⟨c, hc, rfl⟩ | rfl | rfl
  · exact ⟨_, _, rfl, by decide, by decide⟩
  · refine ⟨c, ['='], rfl, ?_⟩
    simp only [String.reduceToList, List.mem_cons, List.not_mem_nil, or_false] at hc
    rcases hc with rfl | rfl | rfl | rfl | rfl | rfl | rfl | rfl <;> decide
  · exact ⟨_, _, rfl, by decide, by decide⟩
  · exact ⟨_, _, rfl, by decide, by decide⟩

/-- The start of an identifier is in no operator. -/
theorem ne_of_isIdentStart {c : Char} (hc : isIdentStart c = true) :
    ∀ d ∈ "=<>-+*/%|&^".toList, c ≠ d := by
  rintro d hd rfl
  revert hc
  simp only [String.reduceToList, List.mem_cons, List.not_mem_nil, or_false] at hd
  rcases hd with rfl | rfl | rfl | rfl | rfl | rfl | rfl | rfl | rfl | rfl | rfl <;> decide

/-- Whether an operator stands at the start of a text is told by what comes before the first
identifier, and by its first character. -/
theorem startsAssignment_append_cons {c : Char} (hc : isIdentStart c = true) (s u v : List Char) :
    startsAssignment (s ++ c :: u) = startsAssignment (s ++ c :: v) := by
  have hne := ne_of_isIdentStart hc
  simp only [String.reduceToList, List.mem_cons, List.not_mem_nil, or_false, forall_eq_or_imp,
    forall_eq] at hne
  have hstart : ∀ u, startsAssignment (c :: u) = false := by
    intro u
    unfold startsAssignment
    split <;> simp_all
  rcases s with _ | ⟨x, _ | ⟨y, _ | ⟨z, s⟩⟩⟩
  · rw [List.nil_append, List.nil_append, hstart, hstart]
  all_goals
    simp only [List.nil_append, List.cons_append, startsAssignment]
    grind

/-! ## The whole pattern -/

/-- The pattern of one further subscript. -/
def furtherSubscript : Pattern := blanks ++ .char '[' ++ .star (charNotOf "]") ++ .char ']'

/-- A further subscript opens a bracket after blanks. -/
theorem exists_of_accepts_furtherSubscript (h : furtherSubscript.Accepts pre w post gs) :
    ∃ g r, w = g ++ '[' :: r ∧ ∀ x ∈ g, isBlank x = true := by
  rw [furtherSubscript, accepts_append] at h
  obtain ⟨u, v, _, _, rfl, rfl, hu, -⟩ := h
  obtain ⟨u, v', _, _, rfl, rfl, hu, -⟩ := hu
  rw [accepts_append_of_right fun _ _ _ _ => accepts_char] at hu
  obtain ⟨g, _, rfl, hg, rfl⟩ := hu
  exact ⟨g, v' ++ v, by simp, (accepts_blanks.mp hg).1⟩

/-- Where no further subscript follows, an access is written to exactly when an assignment
operator comes next. -/
theorem occursIn_assignmentAfter_iff {s : List Char} (hs : subscriptFollows s = false) :
    assignmentAfter.occursIn s = startsAssignment (trimStart s) := by
  rw [Bool.eq_iff_iff, occursIn_iff, startsAssignment_iff []]
  constructor
  · rintro ⟨pre, w, post, gs, rfl, h⟩
    change (atStart ++ star furtherSubscript ++ blanks ++ operators).Accepts pre w post gs at h
    rw [accepts_append_of_right fun _ _ _ _ => accepts_operators] at h
    simp only [accepts_append_of_right fun _ _ _ _ => accepts_blanks] at h
    obtain ⟨_, op, rfl, ⟨u, g, rfl, h, hg⟩, hop⟩ := h
    obtain ⟨_, subs, _, gs, rfl, rfl, ⟨rfl, rfl, rfl⟩, hsubs⟩ := h
    have haccepts : operators.Accepts [] op post [] := accepts_operators.mpr ⟨hop, rfl⟩
    cases hsubs with
    | none =>
        obtain ⟨c, r, rfl, hc, -⟩ := exists_cons_of_accepts_operators haccepts
        refine ⟨c :: r, post, ?_, haccepts⟩
        have := trimStart_append_cons (r := r ++ post) hg hc
        simpa using this
    | more first _ _ =>
        exfalso
        obtain ⟨g', r, rfl, hg'⟩ := exists_of_accepts_furtherSubscript first
        rw [subscriptFollows] at hs
        simp only [List.nil_append, List.append_assoc, List.cons_append] at hs
        rw [trimStart_append_cons hg' (by decide)] at hs
        simp at hs
  · rintro ⟨op, post, htrim, hop⟩
    obtain ⟨g, hsg, hg⟩ := exists_blanks_append_trimStart s
    refine ⟨[], g ++ op, post, [], by simpa [htrim] using hsg, ?_⟩
    change (atStart ++ star furtherSubscript ++ blanks ++ operators).Accepts [] (g ++ op) post []
    rw [accepts_append_of_right fun _ _ _ _ => accepts_operators]
    simp only [accepts_append_of_right fun _ _ _ _ => accepts_blanks]
    refine ⟨g, op, rfl, ⟨[], g, rfl, ?_, hg⟩, (accepts_operators.mp hop).1⟩
    exact ⟨[], [], [], [], rfl, rfl, ⟨rfl, rfl, rfl⟩, .none _ _⟩

end GodotLint.Script

/-!
## The accesses of a line

The accesses that are read on a line of code are its subscripts and calls, in the order of the
scan from left to right, less those that start inside a literal (`bracketAccesses_eq`,
`callAccesses_eq`). Along the scan the subscripts stand in the order of accesses.
-/

namespace GodotLint

/-! ## The order of accesses -/

namespace Access

theorem le_iff {a b : Access} :
    a.le b = true ↔ a.line < b.line ∨ a.line = b.line ∧ a.column ≤ b.column := by
  simp [le]

end Access

namespace Script

open Text Pattern

/-! ## What a match says -/

section groups

variable (before after : List Char)

theorem group_receiver (a : Subscript) :
    (Placed.toMatch Subscript.text Subscript.groups ⟨before, a, after⟩).group 1 = a.receiver := by
  by_cases h : a.quoted.mark = '"' <;>
    simp [Placed.toMatch, Match.group, Match.group?, Subscript.groups, QuotedKey.group, h,
      List.lookup]

theorem group_key (a : Subscript) :
    (Placed.toMatch Subscript.text Subscript.groups ⟨before, a, after⟩).group 2 ++
      (Placed.toMatch Subscript.text Subscript.groups ⟨before, a, after⟩).group 3 =
        a.quoted.key := by
  by_cases h : a.quoted.mark = '"' <;>
    simp [Placed.toMatch, Match.group, Match.group?, Subscript.groups, QuotedKey.group, h,
      List.lookup]

theorem group_call_receiver (c : Call) :
    (Placed.toMatch Call.text Call.groups ⟨before, c, after⟩).group 1 = c.receiver := by
  by_cases h : c.quoted.mark = '"' <;>
    simp [Placed.toMatch, Match.group, Match.group?, Call.groups, QuotedKey.group, h, List.lookup]

theorem group_call_method (c : Call) :
    (Placed.toMatch Call.text Call.groups ⟨before, c, after⟩).group 2 = c.method := by
  by_cases h : c.quoted.mark = '"' <;>
    simp [Placed.toMatch, Match.group, Match.group?, Call.groups, QuotedKey.group, h, List.lookup]

theorem group_call_key (c : Call) :
    (Placed.toMatch Call.text Call.groups ⟨before, c, after⟩).group 3 ++
      (Placed.toMatch Call.text Call.groups ⟨before, c, after⟩).group 4 = c.quoted.key := by
  by_cases h : c.quoted.mark = '"' <;>
    simp [Placed.toMatch, Match.group, Match.group?, Call.groups, QuotedKey.group, h, List.lookup]

end groups

/-! ## Accesses from a scan -/

/-- The access by brackets that a placed subscript is. -/
def accessOfSubscript (code : List Char) (line : Nat) (x : Placed Subscript) : Access :=
  { receiver := str x.token.receiver, key := str x.token.quoted.key, line
    column := width x.before, stop := width (x.before ++ x.token.text)
    form := .bracket
    isAssignment := assignmentAfter.occursIn x.after
    guarded := isGuarded code x.token.quoted.key }

/-- The access by a call that a placed call is. -/
def accessOfCall (line : Nat) (x : Placed Call) : Access :=
  { receiver := str x.token.receiver, key := str x.token.quoted.key, line
    column := width x.before, stop := width (x.before ++ x.token.text)
    form := if x.token.method == ['g', 'e', 't'] then .get else .has
    isAssignment := false
    guarded := true }

/-- A placed token starts outside of literals. -/
def isOutside {α : Type} (x : Placed α) : Bool := !(Quoting.read .outside x.before).isInside

variable {code : List Char} {ps : List (Placed Subscript)} {cs : List (Placed Call)}

/-- Whether a token of a scan starts inside a literal is told by the text before it. -/
theorem isInsideLiteral_eq_of_mem {α : Type} {text : α → List Char} {xs : List (Placed α)}
    {x : Placed α} (h : Scan text [] code xs) (hx : x ∈ xs) :
    Line.isInsideLiteral code (width x.before) = (Quoting.read .outside x.before).isInside := by
  rw [← Line.isInsideLiteral_append x.before (text x.token ++ x.after), ← List.append_assoc,
    ← (h.eq_append x hx).1, List.nil_append]

/-- What is read from the matches outside of literals is told by the tokens outside of literals. -/
theorem filterMap_outside_eq {α β : Type} {p : Pattern} {text : α → List Char}
    {groups : Nat → α → List (Nat × Span)} {xs : List (Placed α)} (hspells : Spells p text groups)
    (h : Scan text [] code xs) {f : Match → β} {g : Placed α → β}
    (hfg : ∀ x, f (x.toMatch text groups) = g x) :
    ((p.findAll code).filterMap fun m =>
      if Line.isInsideLiteral code m.start then none else some (f m)) = (xs.filter isOutside).map g := by
  rw [hspells.findAll_eq h, List.filterMap_map, ← List.filterMap_eq_map, List.filterMap_filter]
  refine List.filterMap_congr fun x hx => ?_
  change (if Line.isInsideLiteral code (width x.before) = true then none
    else some (f (x.toMatch text groups))) = _
  rw [isInsideLiteral_eq_of_mem h hx, hfg, isOutside]
  cases (Quoting.read .outside x.before).isInside <;> rfl

theorem bracketAccesses_eq (h : Scan Subscript.text [] code ps) (line : Nat) :
    bracketAccesses code line = (ps.filter isOutside).map (accessOfSubscript code line) := by
  refine filterMap_outside_eq spells_bracketAccess h fun x => ?_
  rw [group_receiver x.before x.after x.token, group_key x.before x.after x.token]
  rfl

theorem callAccesses_eq (h : Scan Call.text [] code cs) (line : Nat) :
    callAccesses code line = (cs.filter isOutside).map (accessOfCall line) := by
  refine filterMap_outside_eq spells_callAccess h fun x => ?_
  rw [group_call_receiver x.before x.after x.token, group_call_method x.before x.after x.token,
    group_call_key x.before x.after x.token]
  rfl

/-- The words of which one stands in every access. -/
def accessWords : List String := ["[", ".get(", ".has("]

theorem mayAccess_eq (code : List Char) : mayAccess code = containsAny accessWords code := by
  change _ = (contains ['['] code || (contains ".get(".toList code ||
    (contains ".has(".toList code || false)))
  rw [mayAccess, contains_singleton, Bool.or_false, Bool.or_assoc]

/-- A line of code with neither a bracket nor a method that looks up a key has no accesses. -/
theorem accesses_eq_nil_of_mayAccess {code : List Char} (h : mayAccess code = false) (line : Nat) :
    bracketAccesses code line ++ callAccesses code line = [] := by
  have hbracket : bracketAccess.asksFor accessWords = true := by decide
  have hcall : callAccess.asksFor accessWords = true := by decide
  rw [mayAccess_eq] at h
  rw [bracketAccesses, callAccesses, findAll_eq_nil_of_asksFor hbracket h,
    findAll_eq_nil_of_asksFor hcall h]
  rfl

/-- The look at a line for a bracket or a method only saves time: a line without either has no
accesses. -/
theorem accessesOfLine_eq (line : List Char) (number : Nat) : accessesOfLine line number =
    bracketAccesses (Line.code line) number ++ callAccesses (Line.code line) number := by
  rw [accessesOfLine]
  split_ifs with hmay
  · rfl
  · exact (accesses_eq_nil_of_mayAccess (Bool.eq_false_of_not_eq_true hmay) number).symm

/-- The accesses of a line are the subscripts and calls that start outside of literals. -/
theorem mem_accessesOfLine_iff {line : List Char} {number : Nat}
    (hps : Scan Subscript.text [] (Line.code line) ps) (hcs : Scan Call.text [] (Line.code line) cs)
    {x : Access} : x ∈ accessesOfLine line number ↔
      (∃ y ∈ ps, isOutside y = true ∧ accessOfSubscript (Line.code line) number y = x) ∨
        ∃ y ∈ cs, isOutside y = true ∧ accessOfCall number y = x := by
  simp only [accessesOfLine_eq, bracketAccesses_eq hps, callAccesses_eq hcs, List.mem_append,
    List.mem_map, List.mem_filter, and_assoc]

/-- The accesses of a line stand on it. -/
theorem line_of_mem_accessesOfLine {line : List Char} {number : Nat} {x : Access}
    (h : x ∈ accessesOfLine line number) : x.line = number := by
  obtain ⟨ps, hps⟩ := spells_bracketAccess.exists_scan (Line.code line)
  obtain ⟨cs, hcs⟩ := spells_callAccess.exists_scan (Line.code line)
  rcases (mem_accessesOfLine_iff hps hcs).mp h with ⟨y, -, -, rfl⟩ | ⟨y, -, -, rfl⟩
  · rfl
  · rfl

/-- The accesses of a script on one of its lines are those of the line. -/
theorem mem_accesses_iff {ls : List (List Char)} {line : List Char} {number : Nat}
    (h : (line, number) ∈ ls.zipIdx 1) {x : Access} :
    x ∈ accesses ls ∧ x.line = number ↔ x ∈ accessesOfLine line number := by
  rw [accesses, mem_stableSort, List.mem_flatMap]
  constructor
  · rintro ⟨⟨⟨l, n⟩, hl, hx⟩, hnumber⟩
    obtain rfl : n = number := (line_of_mem_accessesOfLine hx).symm.trans hnumber
    rw [List.mk_mem_zipIdx_iff_le_and_getElem?_sub] at h hl
    obtain rfl : line = l := Option.some_inj.mp (h.2.symm.trans hl.2)
    exact hx
  · intro hx
    exact ⟨⟨_, h, hx⟩, line_of_mem_accessesOfLine hx⟩

/-- The subscripts of a scan are in the order of their columns. -/
theorem pairwise_accessOfSubscript (h : Scan Subscript.text [] code ps) (line : Nat) :
    (ps.map (accessOfSubscript code line)).Pairwise fun a b => a.le b = true := by
  rw [List.pairwise_map]
  refine h.pairwise.imp fun {x y} hxy => ?_
  obtain ⟨r, hr⟩ := hxy
  have hwidth : width x.before ≤ width y.before := by
    rw [← hr]
    simp only [width_append]
    omega
  exact Access.le_iff.mpr (.inr ⟨rfl, hwidth⟩)

end Script

end GodotLint
