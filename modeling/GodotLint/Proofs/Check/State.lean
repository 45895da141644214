import GodotLint.Check.State
import GodotLint.Proofs.Fix.Spot
import GodotLint.Proofs.Pattern.Literals
import GodotLint.Proofs.Pattern.Needles
import GodotLint.Proofs.Pattern.Parts

/-!
# Writes to the shared state

A line of a script outside of the simulation and the tests is reported exactly if a write stands on it
outside of literals that no match from inside a literal reaches across (`HasWrite`). A write is what
`IsWrite` says: of the operators that assign, six are known, and a subscript ends at the first bracket that
closes. An assignment is reported if it keeps to that (`stateMutation_reportsWrites`), and others are
overlooked (`stateMutation_overlooks`).
-/

namespace GodotLint.Check

open Text Pattern

/-! ## What is a write -/

/-- The fields that the check watches. -/
def watchedFields (config : Config) : List String :=
  if config.stateFields.isEmpty then defaultStateFields else config.stateFields

theorem watchedFields_ne_nil (config : Config) : watchedFields config ≠ [] := by
  rw [watchedFields]
  split_ifs with h
  · decide
  · simpa using h

/-- The names of the state, with the point behind them. -/
def receivers : List String := ["state.", "_state."]

/-- The operators that the check knows. -/
def knownOperators : List String := ["=", "-=", "+=", "*=", "/=", "%="]

/-- Subscripts in a row. -/
def subscripts (keys : List (List Char)) : List Char := keys.flatMap fun k => '[' :: (k ++ [']'])

/-- A text starts with a known operator that is no comparison, or with a call of a mutating method. -/
def Changes (s : List Char) : Prop :=
  (∃ operator ∈ knownOperators, ∃ c after, s = operator.toList ++ c :: after ∧ c ≠ '=') ∨
    ∃ method ∈ mutatingMethods, ∃ gap after, s = '.' :: (method.toList ++ (gap ++ '(' :: after)) ∧
      ∀ c ∈ gap, isBlank c = true

/-- A write to one of the fields starts between two texts. -/
def IsWrite (fields : List String) (before after : List Char) : Prop :=
  EndsOutsideWord before ∧ ∃ receiver ∈ receivers, ∃ field ∈ fields, ∃ keys gap change,
    after = receiver.toList ++ (field.toList ++ (subscripts keys ++ (gap ++ change))) ∧
      (∀ k ∈ keys, ']' ∉ k) ∧ (∀ c ∈ gap, isBlank c = true) ∧ Changes change

section shape

variable {pre w post : List Char} {gs : List (Nat × Span)}

theorem accepts_receiver : (opt (char '_') ++ lit "state.").Accepts pre w post gs ↔
    (∃ receiver ∈ receivers, w = receiver.toList) ∧ gs = [] := by
  rw [accepts_append_of_right fun _ _ _ _ => accepts_lit]
  simp only [accepts_opt, accepts_char, ← or_and_right]
  constructor
  · rintro ⟨_, _, rfl, ⟨rfl | rfl, rfl⟩, rfl⟩
    · exact ⟨⟨"_state.", by decide, rfl⟩, rfl⟩
    · exact ⟨⟨"state.", by decide, rfl⟩, rfl⟩
  · rintro ⟨⟨receiver, hreceiver, rfl⟩, rfl⟩
    simp only [receivers, List.mem_cons, List.not_mem_nil, or_false] at hreceiver
    rcases hreceiver with rfl | rfl
    · exact ⟨[], _, rfl, ⟨.inr rfl, rfl⟩, rfl⟩
    · exact ⟨['_'], _, rfl, ⟨.inl rfl, rfl⟩, rfl⟩

theorem accepts_knownOperator : (opt (charOf "-+*/%") ++ char '=').Accepts pre w post gs ↔
    (∃ operator ∈ knownOperators, w = operator.toList) ∧ gs = [] := by
  have hchars : "-+*/%".toList = ['-', '+', '*', '/', '%'] := rfl
  rw [accepts_append_of_right fun _ _ _ _ => accepts_char]
  simp only [accepts_opt, accepts_charOf, ← or_and_right, hchars, List.mem_cons, List.not_mem_nil,
    or_false]
  constructor
  · rintro ⟨_, _, rfl, ⟨⟨x, rfl, hx⟩ | rfl, rfl⟩, rfl⟩
    · refine ⟨⟨String.ofList [x, '='], ?_, by simp⟩, rfl⟩
      rcases hx with rfl | rfl | rfl | rfl | rfl <;> decide
    · exact ⟨⟨"=", by decide, rfl⟩, rfl⟩
  · rintro ⟨⟨operator, hoperator, rfl⟩, rfl⟩
    simp only [knownOperators, List.mem_cons, List.not_mem_nil, or_false] at hoperator
    rcases hoperator with rfl | rfl | rfl | rfl | rfl | rfl
    · exact ⟨[], ['='], rfl, ⟨.inr rfl, rfl⟩, rfl⟩
    all_goals exact ⟨[_], ['='], rfl, ⟨.inl ⟨_, rfl, by decide⟩, rfl⟩, rfl⟩

theorem accepts_subscripts :
    (star (char '[' ++ star (charNotOf "]") ++ char ']')).Accepts pre w post gs ↔
      (∃ keys, w = subscripts keys ∧ ∀ k ∈ keys, ']' ∉ k) ∧ gs = [] := by
  have hkey : ∀ pre w post gs, (char '[' ++ star (charNotOf "]") ++ char ']').Accepts pre w post gs ↔
      (∃ k, w = '[' :: (k ++ [']']) ∧ ']' ∉ k) ∧ gs = [] := by
    intro pre w post gs
    rw [accepts_append_of_right fun _ _ _ _ => accepts_char]
    simp only [accepts_append_of_left fun _ _ _ _ => accepts_char,
      accepts_star fun _ _ _ _ => accepts_charNotOf]
    constructor
    · rintro ⟨_, _, rfl, ⟨_, k, rfl, rfl, hk, rfl⟩, rfl⟩
      exact ⟨⟨k, rfl, fun h => hk _ h (by decide)⟩, rfl⟩
    · rintro ⟨⟨k, rfl, hk⟩, rfl⟩
      refine ⟨'[' :: k, _, rfl, ⟨['['], k, rfl, rfl, fun x hx hmem => hk ?_, rfl⟩, rfl⟩
      obtain rfl : x = ']' := by simpa using hmem
      exact hx
  rw [accepts_star_words hkey (by simp)]
  refine and_congr_left fun _ => ⟨?_, ?_⟩
  · rintro ⟨ws, rfl, hws⟩
    -- the text of each word gives its key back
    choose! key hkey using hws
    refine ⟨ws.map key, ?_, ?_⟩
    · rw [subscripts, List.flatMap_map, List.flatMap_def]
      exact congrArg _ ((List.map_id _).symm.trans (List.map_congr_left fun v hv => (hkey v hv).1))
    · intro k hk
      obtain ⟨v, hv, rfl⟩ := List.mem_map.mp hk
      exact (hkey v hv).2
  · rintro ⟨keys, rfl, hkeys⟩
    refine ⟨keys.map fun k => '[' :: (k ++ [']']), List.flatMap_def, ?_⟩
    rintro _ hv
    obtain ⟨k, hk, rfl⟩ := List.mem_map.mp hv
    exact ⟨k, rfl, hkeys k hk⟩

theorem starts_change :
    (alt (group 3 (opt (charOf "-+*/%") ++ char '=') ++ charNotOf "=")
      (char '.' ++ group 4 (word mutatingMethods) ++ blanks ++ char '(')).Starts pre post ↔
        Changes post := by
  have hoperator : ∀ pre w post, (∃ gs, (group 3 (opt (charOf "-+*/%") ++ char '=')).Accepts pre w post
      gs) ↔ ∃ operator ∈ knownOperators, w = operator.toList := by
    simp [accepts_group, accepts_knownOperator]
  have hmethod : ∀ pre w post, (∃ gs, (group 4 (word mutatingMethods)).Accepts pre w post gs) ↔
      ∃ method ∈ mutatingMethods, w = method.toList := by
    have hne : mutatingMethods ≠ [] := by decide
    simp [accepts_group, accepts_word hne]
  have hbehind : ∀ pre post, (charNotOf "=").Starts pre post ↔ ∃ c after, post = c :: after ∧ c ≠ '=' := by
    intro pre post
    simp only [Starts, accepts_charNotOf]
    constructor
    · rintro ⟨_, after, _, rfl, ⟨c, rfl, hc⟩, -⟩
      exact ⟨c, after, rfl, fun h => hc (by simp [h])⟩
    · rintro ⟨c, after, rfl, hc⟩
      exact ⟨[c], after, [], rfl, ⟨c, rfl, by simpa using hc⟩, rfl⟩
  have hparen : ∀ pre post, (char '(').Starts pre post ↔ ∃ after, post = '(' :: after := by
    simp [Starts, accepts_char]
  rw [starts_alt, starts_append_assoc, starts_append_assoc, starts_append hoperator,
    starts_append_of_left fun _ _ _ _ => accepts_char]
  simp only [starts_append hmethod, starts_append_of_left fun _ _ _ _ => accepts_blanks, hbehind,
    hparen]
  refine or_congr ⟨?_, ?_⟩ ⟨?_, ?_⟩
  · rintro ⟨_, _, rfl, ⟨operator, hmem, rfl⟩, c, after, rfl, hc⟩
    exact ⟨operator, hmem, c, after, rfl, hc⟩
  · rintro ⟨operator, hmem, c, after, rfl, hc⟩
    exact ⟨_, _, rfl, ⟨operator, hmem, rfl⟩, c, after, rfl, hc⟩
  · rintro ⟨_, _, rfl, rfl, _, _, rfl, ⟨method, hmem, rfl⟩, gap, _, rfl, hblank, after, rfl⟩
    exact ⟨method, hmem, gap, after, rfl, hblank⟩
  · rintro ⟨method, hmem, gap, after, rfl, hblank⟩
    exact ⟨_, _, rfl, rfl, _, _, rfl, ⟨method, hmem, rfl⟩, gap, _, rfl, hblank, after, rfl⟩

theorem isWordEdge_receiver {receiver : String} (h : receiver ∈ receivers)
    {after : List Char} : (Cursor.between pre (receiver.toList ++ after)).isWordEdge = true ↔
      EndsOutsideWord pre := by
  simp only [receivers, List.mem_cons, List.not_mem_nil, or_false] at h
  rcases h with rfl | rfl
  · exact isWordEdge_between_cons (x := 's') (by decide)
  · exact isWordEdge_between_cons (x := '_') (by decide)

theorem starts_stateMutationShape_iff {fields : List String} (hne : fields ≠ []) :
    (stateMutationShape fields).Starts pre post ↔ IsWrite fields pre post := by
  have hfield : ∀ pre w post, (∃ gs, (group 1 (word fields)).Accepts pre w post gs) ↔
      ∃ field ∈ fields, w = field.toList := by
    simp [accepts_group, accepts_word hne]
  have hkeys : ∀ pre w post, (∃ gs, (group 2 (star (char '[' ++ star (charNotOf "]") ++
      char ']'))).Accepts pre w post gs) ↔ ∃ keys, w = subscripts keys ∧ ∀ k ∈ keys, ']' ∉ k := by
    simp [accepts_group, accepts_subscripts]
  rw [stateMutationShape]
  simp only [starts_append_assoc, starts_wordEdge_append]
  rw [← starts_append_assoc, starts_append_of_left fun _ _ _ _ => accepts_receiver]
  simp only [starts_append hfield, starts_append hkeys,
    starts_append_of_left fun _ _ _ _ => accepts_blanks, choice, starts_change]
  constructor
  · rintro ⟨hedge, _, _, rfl, ⟨receiver, hr, rfl⟩, _, _, rfl, ⟨field, hfield, rfl⟩, _, _, rfl,
      ⟨keys, rfl, hkeys⟩, gap, change, rfl, hblank, hchange⟩
    exact ⟨(isWordEdge_receiver hr).mp hedge, receiver, hr, field, hfield, keys, gap, change, rfl,
      hkeys, hblank, hchange⟩
  · rintro ⟨hedge, receiver, hr, field, hfield, keys, gap, change, rfl, hkeys, hblank, hchange⟩
    exact ⟨(isWordEdge_receiver hr).mpr hedge, _, _, rfl, ⟨receiver, hr, rfl⟩, _, _, rfl,
      ⟨field, hfield, rfl⟩, _, _, rfl, ⟨keys, rfl, hkeys⟩, gap, change, rfl, hblank, hchange⟩

end shape

/-! ## Lines with a write -/

/-- A write stands on a line of code outside of literals, and no match from inside a literal reaches across
the place where it starts. -/
def HasWrite (fields : List String) (code : List Char) : Prop :=
  ∃ before after, code = before ++ after ∧ IsWrite fields before after ∧
    Quoting.read .outside before = .outside ∧
    ¬ (stateMutationShape fields).IsCoveredIn code before

theorem hasWrite_iff {fields : List String} (hne : fields ≠ []) {code : List Char} :
    HasWrite fields code ↔
      ∃ m ∈ (stateMutationShape fields).findAll code, Line.isInsideLiteral code m.start = false := by
  have hconsuming : (stateMutationShape fields).isConsuming = true := rfl
  rw [exists_outside_iff hconsuming]
  simp only [starts_stateMutationShape_iff hne]
  rfl

/-- Whatever the fields are, a match names the state before it names one of them. -/
theorem asksFor_stateMutationShape (fields : List String) :
    (stateMutationShape fields).asksFor ["state."] = true := by
  have hname : (wordEdge ++ opt (char '_') ++ lit "state.").asksFor ["state."] = true := by decide
  exact asksFor_append (asksFor_append (asksFor_append (asksFor_append hname _) _) _) _

/-- A write names the state. -/
theorem contains_of_hasWrite {fields : List String} (hne : fields ≠ []) {code : List Char}
    (h : HasWrite fields code) : contains "state.".toList code = true := by
  obtain ⟨m, hm, -⟩ := (hasWrite_iff hne).mp h
  rw [← containsAny_singleton]
  exact containsAny_of_mem_findAll (asksFor_stateMutationShape fields) hm

/-! ## Assignments -/

/-- Every bracket that is opened is closed; `depth` of them are open before. -/
def closesBrackets : (depth : Nat) → List Char → Bool
  | depth, [] => depth == 0
  | depth, c :: s =>
    if c == '[' then closesBrackets (depth + 1) s
    else if c == ']' then depth != 0 && closesBrackets (depth - 1) s
    else closesBrackets depth s

/-- An assignment to a field of the state, or to what it holds. -/
structure Assignment (fields : List String) (code : List Char) where
  before : List Char
  receiver : String
  field : String
  /-- What stands in the brackets of the subscripts. -/
  keys : List (List Char)
  /-- The blanks before the operator. -/
  gap : List Char
  operator : String
  /-- The code after the operator. -/
  value : List Char
  code_eq : code = before ++ (receiver.toList ++ (field.toList ++ (subscripts keys ++
    (gap ++ (operator.toList ++ value)))))
  outside : Line.isInsideLiteral code (width before) = false
  whole : EndsOutsideWord before
  mem_receivers : receiver ∈ receivers
  mem_fields : field ∈ fields
  balanced : ∀ k ∈ keys, closesBrackets 0 k = true
  gap_blank : ∀ c ∈ gap, isBlank c = true
  mem_operators : operator ∈ Fixer.assignmentOperators
  /-- There is something to assign. -/
  hasValue : ∃ c ∈ value, isBlank c = false
  not_comparison : value.head? ≠ some '='

namespace Assignment

variable {fields : List String} {code : List Char}

/-- The check knows the operator, and no subscript stands in another one. -/
def IsKnown (a : Assignment fields code) : Prop :=
  a.operator ∈ knownOperators ∧ ∀ k ∈ a.keys, ']' ∉ k

/-- A match from inside a literal reaches across the place of the assignment. -/
def IsCovered (a : Assignment fields code) : Prop :=
  (stateMutationShape fields).IsCoveredIn code a.before

/-- The code from the name of the state on. -/
def after (a : Assignment fields code) : List Char :=
  a.receiver.toList ++ (a.field.toList ++ (subscripts a.keys ++
    (a.gap ++ (a.operator.toList ++ a.value))))

theorem eq_append (a : Assignment fields code) : code = a.before ++ a.after := a.code_eq

/-- A known assignment is a write. -/
theorem hasWrite (a : Assignment fields code) (hknown : a.IsKnown) (hcovered : ¬ a.IsCovered) :
    HasWrite fields code := by
  obtain ⟨c, after, hvalue⟩ : ∃ c after, a.value = c :: after := by
    obtain ⟨c, hc, -⟩ := a.hasValue
    exact List.exists_cons_of_ne_nil (List.ne_nil_of_mem hc)
  have hc : c ≠ '=' := by
    have := a.not_comparison
    simpa [hvalue] using this
  have hread : Quoting.read .outside a.before = .outside := by
    have hplace := Line.isInsideLiteral_append a.before a.after
    rw [← a.eq_append, a.outside] at hplace
    exact Quoting.isInside_eq_false_iff.mp hplace.symm
  refine ⟨a.before, _, a.code_eq, ⟨a.whole, a.receiver, a.mem_receivers, a.field, a.mem_fields,
    a.keys, a.gap, _, rfl, hknown.2, a.gap_blank, .inl ?_⟩, hread, hcovered⟩
  exact ⟨a.operator, hknown.1, c, after, by rw [hvalue], hc⟩

end Assignment

/-! ## The check -/

/-- What is reported of writes to the shared state. -/
structure ReportsWrites (c : Context) (findings : Findings) : Prop where
  /-- All issues are errors of one kind. -/
  issue : ∀ i ∈ findings.issues, i.kind = "state_mutation_outside_sim" ∧ i.severity = .error
  /-- A line is reported exactly if it has a write and its script may not write. -/
  reported_iff : ∀ file line, (∃ i ∈ findings.issues, i.file = file ∧ i.line = line) ↔
    ∃ s ∈ c.scripts, s.path = file ∧ mayMutate s.source.layer = false ∧
      ∃ raw, (raw, line) ∈ s.source.lines.zipIdx 1 ∧
        HasWrite (watchedFields c.config) (Line.code raw)
  /-- An assignment that the check knows is a write, if no match from inside a literal reaches across. -/
  assignment : ∀ code (a : Assignment (watchedFields c.config) code), a.IsKnown → ¬ a.IsCovered →
    HasWrite (watchedFields c.config) code

variable {c : Context} {fields : List String}

/-- The writes on a line are the matches that start outside of literals. -/
theorem exists_mem_mutationsOf_iff (hne : fields ≠ []) {s : Script} {line : Nat} :
    (∃ m, (line, m) ∈ mutationsOf (stateMutationShape fields) s) ↔
      ∃ raw, (raw, line) ∈ s.source.lines.zipIdx 1 ∧ HasWrite fields (Line.code raw) := by
  have hline : ∀ raw n, (∃ m, (line, m) ∈ (if !contains "state.".toList (Line.code raw) then []
      else ((stateMutationShape fields).findAll (Line.code raw)).filterMap fun m =>
        if Line.isInsideLiteral (Line.code raw) m.start then none else some (n, m))) ↔
      n = line ∧ HasWrite fields (Line.code raw) := by
    intro raw n
    cases hstate : contains "state.".toList (Line.code raw) with
    | false =>
        have hwrite : ¬ HasWrite fields (Line.code raw) := by
          intro h
          rw [contains_of_hasWrite hne h] at hstate
          cases hstate
        simp [hwrite]
    | true =>
        rw [hasWrite_iff hne]
        simp only [Bool.not_true, Bool.false_eq_true, if_false, List.mem_filterMap,
          Option.ite_none_left_eq_some, Option.some.injEq, Prod.mk.injEq, Bool.not_eq_true]
        constructor
        · rintro ⟨m, m, hm, houtside, rfl, rfl⟩
          exact ⟨rfl, m, hm, houtside⟩
        · rintro ⟨rfl, m, hm, houtside⟩
          exact ⟨m, m, hm, houtside, rfl, rfl⟩
  simp only [mutationsOf, List.mem_flatMap]
  constructor
  · rintro ⟨m, ⟨raw, n⟩, hraw, hm⟩
    obtain ⟨rfl, hwrite⟩ := (hline raw n).mp ⟨m, hm⟩
    exact ⟨raw, hraw, hwrite⟩
  · rintro ⟨raw, hraw, hwrite⟩
    obtain ⟨m, hm⟩ := (hline raw line).mpr ⟨rfl, hwrite⟩
    exact ⟨m, (raw, line), hraw, hm⟩

/-- The issues are those of the writes of the scripts that may not write. -/
theorem mem_issues_stateMutation_iff {shape : Pattern} {i : Issue} :
    i ∈ ((c.scripts.flatMap fun s => (mutationsOf shape s).map fun w => (s, w)).filter
        fun (s, _) => !mayMutate s.source.layer).map (fun (s, line, m) => mutationIssue s line m) ↔
      ∃ s ∈ c.scripts, mayMutate s.source.layer = false ∧
        ∃ line m, (line, m) ∈ mutationsOf shape s ∧ i = mutationIssue s line m := by
  simp only [List.mem_map, List.mem_filter, List.mem_flatMap, Bool.not_eq_true']
  constructor
  · rintro ⟨_, ⟨⟨s, hs, ⟨line, m⟩, hm, rfl⟩, hlayer⟩, rfl⟩
    exact ⟨s, hs, hlayer, line, m, hm, rfl⟩
  · rintro ⟨s, hs, hlayer, line, m, hm, rfl⟩
    exact ⟨_, ⟨⟨s, hs, (line, m), hm, rfl⟩, hlayer⟩, rfl⟩

/-- **Writes from outside of the simulation are reported**: of each script in another layer exactly the
lines that have a write, in particular those with a known assignment, unless a match from inside a literal
reaches across it. -/
theorem stateMutation_reportsWrites (c : Context) :
    ∃ findings, stateMutation.run c = .finished findings ∧ ReportsWrites c findings := by
  refine ⟨_, rfl, fun i hi => ?_, fun file line => ?_, fun _ a => a.hasWrite⟩
  · obtain ⟨s, -, -, line, m, -, rfl⟩ := mem_issues_stateMutation_iff.mp hi
    exact ⟨rfl, rfl⟩
  · simp only [← exists_mem_mutationsOf_iff (watchedFields_ne_nil c.config)]
    constructor
    · rintro ⟨i, hi, rfl, rfl⟩
      obtain ⟨s, hs, hlayer, line, m, hm, rfl⟩ := mem_issues_stateMutation_iff.mp hi
      exact ⟨s, hs, rfl, hlayer, m, hm⟩
    · rintro ⟨s, hs, rfl, hlayer, m, hm⟩
      exact ⟨_, mem_issues_stateMutation_iff.mpr ⟨s, hs, hlayer, line, m, hm, rfl⟩, rfl, rfl⟩

/-! ## What is overlooked -/

/-- A script of the user interface that raises to a power, assigns through a subscript in a subscript, and
names the state in a literal before it assigns. -/
def shop : Project := .ofFiles {}
  [("ui/shop.gd", "state.gold **= 2\nstate.towers[a[0]] = 1\nf(\"state.gold[\"); state.hp[0] = 5\n")]

theorem stateMutation_overlooks :
    (∃ s ∈ shop.scripts, mayMutate s.source.layer = false ∧ s.source.lines ≠ [] ∧
      ∀ raw ∈ s.source.lines, Nonempty (Assignment (watchedFields {}) (Line.code raw))) ∧
    ∃ findings, stateMutation.run ⟨shop, {}⟩ = .finished findings ∧ findings.issues = [] := by
  refine ⟨?_, _, rfl, by decide +kernel⟩
  have hlines : ∃ s ∈ shop.scripts, mayMutate s.source.layer = false ∧
      s.source.lines = ["state.gold **= 2".toList, "state.towers[a[0]] = 1".toList,
        "f(\"state.gold[\"); state.hp[0] = 5".toList] := by
    decide +kernel
  obtain ⟨s, hs, hlayer, hlines⟩ := hlines
  refine ⟨s, hs, hlayer, by simp [hlines], ?_⟩
  have hblank : ∀ c ∈ [' '], isBlank c = true := by simp [show isBlank ' ' = true by decide]
  simp only [hlines, List.forall_mem_cons, List.not_mem_nil, IsEmpty.forall_iff, implies_true, and_true]
  refine ⟨⟨?_⟩, ⟨?_⟩, ⟨?_⟩⟩
  · exact {
      before := [], receiver := "state.", field := "gold", keys := [], gap := [' '], operator := "**="
      value := " 2".toList, code_eq := by decide +kernel, outside := by decide +kernel
      whole := by decide +kernel, mem_receivers := by decide, mem_fields := by decide +kernel
      balanced := by decide, gap_blank := hblank, mem_operators := by decide
      hasValue := ⟨'2', by decide⟩, not_comparison := by decide }
  · exact {
      before := [], receiver := "state.", field := "towers", keys := ["a[0]".toList], gap := [' ']
      operator := "=", value := " 1".toList, code_eq := by decide +kernel
      outside := by decide +kernel, whole := by decide +kernel, mem_receivers := by decide
      mem_fields := by decide +kernel, balanced := by decide, gap_blank := hblank
      mem_operators := by decide, hasValue := ⟨'1', by decide⟩, not_comparison := by decide }
  · exact {
      before := "f(\"state.gold[\"); ".toList, receiver := "state.", field := "hp", keys := [['0']]
      gap := [' '], operator := "=", value := " 5".toList, code_eq := by decide +kernel
      outside := by decide +kernel, whole := by decide +kernel, mem_receivers := by decide
      mem_fields := by decide +kernel, balanced := by decide, gap_blank := hblank
      mem_operators := by decide, hasValue := ⟨'5', by decide⟩, not_comparison := by decide }

end GodotLint.Check
