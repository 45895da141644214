import GodotLint.Proofs.Ordering
import GodotLint.Script.Declaration

/-!
# What a line adds to the declarations

Outside of enum bodies a line of code does one of four things, and does the same whatever has been
declared before (`CodeEffect`, `codeEffect`). Two statements about whole scripts follow from the four
cases. Which values of enums a run of lines names depends on the lines alone, and on whether an enum
body is open above them (`Naming`, `exists_naming`); in the end these are the values that the script
has, since they are found in the order of the lines (`Naming.declared`). And declarations
that are put in at one place stay what they are, and everything read after them is what it would be
without them (`Inserts.readLines`), as long as no class of a script is among them.
-/

namespace GodotLint

namespace Script

open Text Pattern

/-! ## Lines of code -/

/-- The declarations of an enum on one of its lines: its name, if it stands there, and the values. -/
def enumDeclarations (name? : Option String) (body : List Char) (line indent : Nat) :
    List Declaration :=
  (name?.toList.map fun name => { kind := .enum, name, line, indent }) ++
    enumValueDeclarations body line indent

/-- Nothing is declared yet, and some annotations wait. -/
def Declared.waiting (pending : List Annotation) : Declared := { declarations := [], pending }

/-- What a line of code does outside of enum bodies, whatever has been declared before it and
wherever it stands. -/
inductive CodeEffect (code : List Char) : Prop
  /-- Its annotations wait for what is below. -/
  | waits (read : ∀ (s : Declared) function line, s.readCode function code line =
      { s with pending := s.pending ++ annotations code })
  /-- The script gets a base. -/
  | rebases (base : Nat → Extends) (read : ∀ (s : Declared) function line,
      s.readCode function code line =
        { s with
          declarations := setClassBase (base line).target s.declarations
          base := some (base line), pending := [] })
  /-- An enum starts. -/
  | opens (name? : Option String) (body : List Char) (indent : Nat)
      (read : ∀ (s : Declared) function line, s.readCode function code line =
        { s.add (enumDeclarations name? body line indent) with
          openEnum := if body.contains '\x7d' then none else some indent })
  /-- Anything else is declared, or nothing, as it would be at the start of a script. -/
  | declares
      (kind : ∀ pending function line,
        ∀ d ∈ ((Declared.waiting pending).readCode function code line).declarations,
          d.kind ≠ .enumValue)
      (read : ∀ (s : Declared) function line, s.readCode function code line =
        let first := (Declared.waiting s.pending).readCode function code line
        { s.add first.declarations with
          className := first.className <|> s.className, base := first.base <|> s.base })

/-- Nothing that is tried before enums is found in the code. -/
structure NoEarlier (code : List Char) : Prop where
  waits : annotationsOnly.find? code = none
  className : classNameClause.find? code = none
  base : extendsClause.find? code = none
  innerClass : innerClassHeader.find? code = none
  constant : constantDeclaration.find? code = none
  variable_ : variableDeclaration.find? code = none
  signal : signalDeclaration.find? code = none

/-- The line that opens an enum. -/
theorem readCode_of_enumHeader {code : List Char} {m : Match} (h : NoEarlier code)
    (hm : enumHeader.find? code = some m) (s : Declared) (function : Option String) (line : Nat) :
    s.readCode function code line =
      { s.add (enumDeclarations ((m.group? 2).map (·.text)) (m.group 3) line
          (Line.indent (m.group 1))) with
        openEnum := if (m.group 3).contains '\x7d' then none else some (Line.indent (m.group 1)) } := by
  obtain ⟨hwaits, hclass, hextends, hinner, hconst, hvar, hsignal⟩ := h
  cases hname : m.group? 2 <;>
    simp [Declared.readCode, occursIn, hwaits, hclass, hextends, hinner, hconst, hvar, hsignal, hm,
      hname, enumDeclarations]

/-- Code in which nothing at all is found. -/
theorem readCode_of_none {code : List Char} (h : NoEarlier code) (hnone : enumHeader.find? code = none)
    (s : Declared) (function : Option String) (line : Nat) :
    s.readCode function code line = { s with pending := [] } := by
  obtain ⟨hwaits, hclass, hextends, hinner, hconst, hvar, hsignal⟩ := h
  simp [Declared.readCode, occursIn, hwaits, hclass, hextends, hinner, hconst, hvar, hsignal, hnone]

/-- **A line of code has one of the four effects**: the patterns are tried one after the other, and
the first that is found decides. -/
theorem codeEffect (code : List Char) : CodeEffect code := by
  cases hwaits : annotationsOnly.find? code with
  | some m => exact .waits fun s function line => by simp [Declared.readCode, occursIn, hwaits]
  | none =>
  cases hclass : classNameClause.find? code with
  | some m =>
      refine .declares (fun pending function line => ?_) fun s function line => ?_
      · simp [Declared.readCode, Declared.add, Declared.waiting, occursIn, hwaits, hclass]
      · cases hbase : m.group? 2 <;>
          simp [Declared.readCode, Declared.add, Declared.waiting, occursIn, hwaits, hclass, hbase]
  | none =>
  cases hextends : extendsClause.find? code with
  | some m =>
      refine .rebases (extendsOf (m.group 1)) fun s function line => ?_
      simp [Declared.readCode, occursIn, hwaits, hclass, hextends]
  | none =>
  cases hinner : innerClassHeader.find? code with
  | some m =>
      refine .declares (fun pending function line => ?_) fun s function line => ?_ <;>
        simp [Declared.readCode, Declared.add, Declared.waiting, occursIn, hwaits, hclass, hextends,
          hinner]
  | none =>
  cases hconst : constantDeclaration.find? code with
  | some m =>
      refine .declares (fun pending function line => ?_) fun s function line => ?_ <;>
        simp [Declared.readCode, Declared.add, Declared.waiting, occursIn, hwaits, hclass, hextends,
          hinner, hconst]
  | none =>
  cases hvar : variableDeclaration.find? code with
  | some m =>
      have hkind : ∀ exported : Prop, [Decidable exported] →
          (if exported then DeclarationKind.export else .variable) ≠ .enumValue := by
        intro exported _
        split_ifs <;> decide
      refine .declares (fun pending function line => ?_) fun s function line => ?_ <;>
        simp [Declared.readCode, Declared.add, Declared.waiting, occursIn, hwaits, hclass, hextends,
          hinner, hconst, hvar, hkind]
  | none =>
  cases hsignal : signalDeclaration.find? code with
  | some m =>
      refine .declares (fun pending function line => ?_) fun s function line => ?_ <;>
        simp [Declared.readCode, Declared.add, Declared.waiting, occursIn, hwaits, hclass, hextends,
          hinner, hconst, hvar, hsignal]
  | none =>
  have hearlier : NoEarlier code := ⟨hwaits, hclass, hextends, hinner, hconst, hvar, hsignal⟩
  cases henum : enumHeader.find? code with
  | some m => exact .opens _ _ _ (readCode_of_enumHeader hearlier henum)
  | none =>
      refine .declares (fun pending function line => ?_) fun s function line => ?_ <;>
        simp [Declared.add, Declared.waiting, readCode_of_none hearlier henum]

/-! ## Lines of a script -/

/-- Reads lines of which the first has the number `n`. -/
def Declared.readLines (functions : List Function) (s : Declared) (n : Nat)
    (lines : List (List Char)) : Declared :=
  (lines.zipIdx n).foldl (Declared.readLine functions) s

namespace Declared

variable {functions : List Function} {s : Declared} {n : Nat} {raw : List Char}

/-- A line of an enum body. -/
theorem readLine_of_some {indent : Nat} (hsome : s.openEnum = some indent) :
    s.readLine functions (raw, n) =
      { s with
        declarations := s.declarations ++ enumDeclarations none (Line.code raw) n indent
        openEnum := if (Line.code raw).contains '\x7d' then none else some indent } := by
  rw [readLine, hsome]
  rfl

/-- A line of code outside of enum bodies. -/
theorem readLine_of_none (hnone : s.openEnum = none)
    (hcode : isAllBlank (trimEnd (Line.code raw)) = false) : s.readLine functions (raw, n) =
      s.readCode (Function.enclosingBody? functions n) (trimEnd (Line.code raw)) n := by
  rw [readLine, hnone]
  simp [hcode]

/-- Blank lines are skipped outside of enum bodies. -/
theorem readLine_of_blank (hnone : s.openEnum = none)
    (hblank : isAllBlank (trimEnd (Line.code raw)) = true) : s.readLine functions (raw, n) = s := by
  rw [readLine, hnone]
  simp [hblank]

/-! ### Runs of lines -/

@[simp] theorem readLines_nil : s.readLines functions n [] = s := rfl

@[simp] theorem readLines_singleton :
    s.readLines functions n [raw] = s.readLine functions (raw, n) := rfl

theorem readLines_cons (lines : List (List Char)) : s.readLines functions n (raw :: lines) =
    (s.readLine functions (raw, n)).readLines functions (n + 1) lines := rfl

theorem readLines_append (lines lines' : List (List Char)) :
    s.readLines functions n (lines ++ lines') =
      (s.readLines functions n lines).readLines functions (n + lines.length) lines' := by
  rw [readLines, List.zipIdx_append, List.foldl_append]
  rfl

/-- Declarations in the order of their lines. -/
def sorted (s : Declared) : Declared :=
  { s with declarations := sortByNat (·.line) s.declarations }

end Declared

theorem declared_eq (lines : List (List Char)) (functions : List Function) :
    declared lines functions =
      (Declared.readLines functions { declarations := functions.map functionDeclaration } 1
        lines).sorted := rfl

/-! ## Values of enums -/

/-- The values of enums among declarations. -/
def enumValuesOf (ds : List Declaration) : List Declaration := ds.filter (·.kind = .enumValue)

/-- The names of the values of enums, in the order in which they are declared. -/
def Declared.valueNames (s : Declared) : List String :=
  (enumValuesOf s.declarations).map (·.name)

@[simp] theorem enumValuesOf_append (ds es : List Declaration) :
    enumValuesOf (ds ++ es) = enumValuesOf ds ++ enumValuesOf es := List.filter_append ..

theorem enumValuesOf_of_kind {ds : List Declaration} (h : ∀ d ∈ ds, d.kind ≠ .enumValue) :
    enumValuesOf ds = [] :=
  List.filter_eq_nil_iff.mpr fun d hd => by simpa using h d hd

theorem enumValuesOf_setClassBase (base : String) (ds : List Declaration) :
    enumValuesOf (setClassBase base ds) = enumValuesOf ds := by
  induction ds with
  | nil => rfl
  | cons d ds ih =>
      rw [setClassBase]
      split_ifs with hclass
      · simp [enumValuesOf, hclass]
      · rw [enumValuesOf, enumValuesOf, List.filter_cons, List.filter_cons, ← enumValuesOf,
          ← enumValuesOf, ih]

/-- Declarations of enums on `count` lines from `n` on, in the order of the lines, of which the
values have the names `names`. -/
structure OfEnums (n count : Nat) (names : List String) (ds : List Declaration) : Prop where
  kind : ∀ d ∈ ds, d.kind = .enum ∨ d.kind = .enumValue
  line : ∀ d ∈ ds, n ≤ d.line ∧ d.line < n + count
  rising : ds.Pairwise fun d e => d.line ≤ e.line
  names : (enumValuesOf ds).map (·.name) = names

namespace OfEnums

variable {n count count' : Nat} {names names' : List String} {ds es : List Declaration}

theorem nil : OfEnums n count [] [] := ⟨by simp, by simp, .nil, rfl⟩

theorem append (h : OfEnums n count names ds) (h' : OfEnums (n + count) count' names' es) :
    OfEnums n (count + count') (names ++ names') (ds ++ es) where
  kind := List.forall_mem_append.mpr ⟨h.kind, h'.kind⟩
  line := by
    refine List.forall_mem_append.mpr ⟨fun d hd => ?_, fun d hd => ?_⟩
    · have := h.line d hd
      omega
    · have := h'.line d hd
      omega
  rising := by
    refine List.pairwise_append.mpr ⟨h.rising, h'.rising, fun d hd e he => ?_⟩
    have := h.line d hd
    have := h'.line e he
    omega
  names := by rw [enumValuesOf_append, List.map_append, h.names, h'.names]

/-- The declarations on one line. -/
theorem enumDeclarations (name? : Option String) (body : List Char) (line indent : Nat) :
    OfEnums line 1 (enumValues body) (enumDeclarations name? body line indent) := by
  have hline : ∀ d ∈ Script.enumDeclarations name? body line indent,
      (d.kind = .enum ∨ d.kind = .enumValue) ∧ d.line = line := by
    refine List.forall_mem_append.mpr ⟨fun d hd => ?_, fun d hd => ?_⟩
    · obtain ⟨name, -, rfl⟩ := List.mem_map.mp hd
      exact ⟨.inl rfl, rfl⟩
    · obtain ⟨name, -, rfl⟩ := List.mem_map.mp hd
      exact ⟨.inr rfl, rfl⟩
  refine ⟨fun d hd => (hline d hd).1, fun d hd => ?_, ?_, ?_⟩
  · have := (hline d hd).2
    omega
  · refine List.pairwise_of_forall_mem_list fun d hd e he => ?_
    rw [(hline d hd).2, (hline e he).2]
  · have hname : enumValuesOf (name?.toList.map fun name =>
        ({ kind := .enum, name, line, indent } : Declaration)) = [] :=
      enumValuesOf_of_kind fun d hd => by
        obtain ⟨name, -, rfl⟩ := List.mem_map.mp hd
        simp
    rw [Script.enumDeclarations, enumValuesOf_append, hname, List.nil_append]
    simp [enumValuesOf, enumValueDeclarations, List.filter_map, Function.comp_def]

end OfEnums

/-- Wherever the lines stand and whatever is declared above them, they name `names` in enum bodies:
an enum body is open above them if `isOpen` and below them if `isOpen'`. -/
def Naming (isOpen : Bool) (lines : List (List Char)) (names : List String) (isOpen' : Bool) : Prop :=
  ∀ functions (s : Declared) n, s.openEnum.isSome = isOpen →
    (s.readLines functions n lines).openEnum.isSome = isOpen' ∧
      ∃ ds, OfEnums n lines.length names ds ∧
        enumValuesOf (s.readLines functions n lines).declarations =
          enumValuesOf s.declarations ++ enumValuesOf ds

section naming

variable {isOpen isOpen' isOpen'' : Bool} {lines lines' : List (List Char)} {names names' : List String}

theorem Naming.nil (isOpen : Bool) : Naming isOpen [] [] isOpen :=
  fun _ _ _ h => ⟨h, [], .nil, by simp [enumValuesOf]⟩

theorem Naming.append (h : Naming isOpen lines names isOpen')
    (h' : Naming isOpen' lines' names' isOpen'') :
    Naming isOpen (lines ++ lines') (names ++ names') isOpen'' := by
  intro functions s n hs
  obtain ⟨hopen, ds, hds, hvalues⟩ := h functions s n hs
  obtain ⟨hopen', es, hes, hvalues'⟩ := h' functions _ (n + lines.length) hopen
  rw [Declared.readLines_append, List.length_append]
  exact ⟨hopen', ds ++ es, hds.append hes, by
    rw [hvalues', hvalues, enumValuesOf_append, List.append_assoc]⟩

/-- A line of an enum body. -/
theorem naming_of_open (raw : List Char) :
    Naming true [raw] (enumValues (Line.code raw)) (!(Line.code raw).contains '\x7d') := by
  intro functions s n hs
  obtain ⟨indent, hindent⟩ := Option.isSome_iff_exists.mp hs
  rw [Declared.readLines_singleton, Declared.readLine_of_some hindent]
  refine ⟨?_, _, .enumDeclarations .., enumValuesOf_append _ _⟩
  cases (Line.code raw).contains '\x7d' <;> rfl

/-- What a line names depends on nothing but whether it stands in an enum body. -/
theorem exists_naming_singleton (isOpen : Bool) (raw : List Char) :
    ∃ names isOpen', Naming isOpen [raw] names isOpen' := by
  cases isOpen with
  | true => exact ⟨_, _, naming_of_open raw⟩
  | false =>
  cases hcode : isAllBlank (trimEnd (Line.code raw)) with
  | true =>
      refine ⟨[], false, fun functions s n hs => ?_⟩
      rw [Declared.readLines_singleton, Declared.readLine_of_blank (by simpa using hs) hcode]
      exact ⟨hs, [], .nil, by simp [enumValuesOf]⟩
  | false =>
  have hread : ∀ functions (s : Declared) n, s.openEnum.isSome = false →
      s.readLines functions n [raw] =
        s.readCode (Function.enclosingBody? functions n) (trimEnd (Line.code raw)) n :=
    fun functions s n hs => Declared.readLine_of_none (by simpa using hs) hcode
  cases codeEffect (trimEnd (Line.code raw)) with
  | waits read =>
      refine ⟨[], false, fun functions s n hs => ?_⟩
      rw [hread functions s n hs, read]
      exact ⟨hs, [], .nil, by simp [enumValuesOf]⟩
  | rebases base read =>
      refine ⟨[], false, fun functions s n hs => ?_⟩
      rw [hread functions s n hs, read, enumValuesOf_setClassBase]
      exact ⟨hs, [], .nil, by simp [enumValuesOf]⟩
  | opens name? body indent read =>
      refine ⟨enumValues body, !body.contains '\x7d', fun functions s n hs => ?_⟩
      rw [hread functions s n hs, read]
      refine ⟨?_, _, .enumDeclarations .., enumValuesOf_append _ _⟩
      cases body.contains '\x7d' <;> rfl
  | declares kind read =>
      refine ⟨[], false, fun functions s n hs => ?_⟩
      rw [hread functions s n hs, read]
      refine ⟨hs, [], .nil, ?_⟩
      change enumValuesOf (s.declarations ++ _) = _
      rw [enumValuesOf_append, enumValuesOf_of_kind (kind _ _ _)]
      rfl

/-- Which values lines name depends on the lines and on whether an enum body is open above. -/
theorem exists_naming (isOpen : Bool) (lines : List (List Char)) :
    ∃ names isOpen', Naming isOpen lines names isOpen' := by
  induction lines generalizing isOpen with
  | nil => exact ⟨[], isOpen, .nil isOpen⟩
  | cons raw lines ih =>
      obtain ⟨names, isOpen', hfirst⟩ := exists_naming_singleton isOpen raw
      obtain ⟨names', isOpen'', hlater⟩ := ih isOpen'
      exact ⟨names ++ names', isOpen'', hfirst.append hlater⟩

/-- **The values of a script are those that its lines name**, in the order of the lines. -/
theorem Naming.declared (h : Naming false lines names isOpen) (functions : List Function) :
    (declared lines functions).valueNames = names ∧
      (declared lines functions).openEnum.isSome = isOpen := by
  obtain ⟨hopen, ds, hds, hvalues⟩ :=
    h functions { declarations := functions.map functionDeclaration } 1 rfl
  have hfunctions : enumValuesOf (functions.map functionDeclaration) = [] := by
    refine enumValuesOf_of_kind fun d hd => ?_
    obtain ⟨f, -, rfl⟩ := List.mem_map.mp hd
    simp [functionDeclaration]
  rw [hfunctions, List.nil_append] at hvalues
  refine ⟨?_, hopen⟩
  have hrising : (enumValuesOf ds).Pairwise fun d e => decide (d.line ≤ e.line) = true :=
    (hds.rising.filter _).imp fun hle => decide_eq_true hle
  rw [declared_eq, Declared.valueNames, Declared.sorted, ← hds.names, ← hvalues]
  rw [← hvalues] at hrising
  exact congrArg _ (filter_stableSort hrising)

end naming

/-! ## Declarations that are put in -/

/-- The second reading has the declarations `own` besides those of the first, and differs in nothing
else. -/
def Inserts (own : List Declaration) (s t : Declared) : Prop :=
  ∃ ds es, s.declarations = ds ++ es ∧ t = { s with declarations := ds ++ own ++ es }

/-- Two readings agree on the lines that are not among those behind line `first` and up to line
`last`, and on the class and the base of the script. -/
structure AgreeOutside (first last : Nat) (s t : Declared) : Prop where
  declarations : s.declarations.filter (fun d => d.line ≤ first || last < d.line) =
    t.declarations.filter fun d => d.line ≤ first || last < d.line
  className : s.className = t.className
  base : s.base = t.base

section inserts

variable {own : List Declaration} {s t : Declared}

theorem setClassBase_append {own : List Declaration} (hown : ∀ d ∈ own, d.kind ≠ .scriptClass)
    (base : String) (es : List Declaration) :
    setClassBase base (own ++ es) = own ++ setClassBase base es := by
  induction own with
  | nil => rfl
  | cons d own ih =>
      obtain ⟨hd, hown⟩ := List.forall_mem_cons.mp hown
      rw [List.cons_append, setClassBase, if_neg hd, ih hown, List.cons_append]

/-- The class that gets the base stands before the declarations that are put in, or behind them. -/
theorem exists_setClassBase_append (hown : ∀ d ∈ own, d.kind ≠ .scriptClass) (base : String)
    (ds es : List Declaration) : ∃ ds' es', setClassBase base (ds ++ es) = ds' ++ es' ∧
      setClassBase base (ds ++ own ++ es) = ds' ++ own ++ es' := by
  induction ds with
  | nil => exact ⟨[], setClassBase base es, rfl, setClassBase_append hown base es⟩
  | cons d ds ih =>
      simp only [List.cons_append, setClassBase]
      split_ifs with hclass
      · exact ⟨_ :: ds, es, rfl, rfl⟩
      · obtain ⟨ds', es', hs, ht⟩ := ih
        exact ⟨d :: ds', es', by rw [hs, List.cons_append], by rw [ht]; rfl⟩

/-- One more line is read alike, with the declarations put in or without. -/
theorem Inserts.readLine (h : Inserts own s t) (hown : ∀ d ∈ own, d.kind ≠ .scriptClass)
    (functions : List Function) (numbered : List Char × Nat) :
    Inserts own (s.readLine functions numbered) (t.readLine functions numbered) := by
  obtain ⟨ds, es, hs, ht⟩ := h
  have hopen : t.openEnum = s.openEnum := by rw [ht]
  obtain ⟨raw, n⟩ := numbered
  rcases Option.eq_none_or_eq_some s.openEnum with hnone | ⟨indent, hsome⟩
  swap
  · rw [Declared.readLine_of_some hsome, Declared.readLine_of_some (hopen.trans hsome), ht]
    exact ⟨ds, es ++ _, by rw [← List.append_assoc, ← hs], by simp⟩
  cases hcode : isAllBlank (trimEnd (Line.code raw)) with
  | true =>
      rw [Declared.readLine_of_blank hnone hcode,
        Declared.readLine_of_blank (hopen.trans hnone) hcode]
      exact ⟨ds, es, hs, ht⟩
  | false =>
  rw [Declared.readLine_of_none hnone hcode,
    Declared.readLine_of_none (hopen.trans hnone) hcode]
  cases codeEffect (trimEnd (Line.code raw)) with
  | waits read =>
      rw [read s, read t, ht]
      exact ⟨ds, es, hs, rfl⟩
  | rebases base read =>
      rw [read s, read t, hs, ht]
      obtain ⟨ds', es', hbefore, hafter⟩ := exists_setClassBase_append hown (base n).target ds es
      exact ⟨ds', es', hbefore, by rw [hafter]⟩
  | opens name? body indent read =>
      rw [read s, read t, ht]
      exact ⟨ds, es ++ _, by rw [← List.append_assoc, ← hs]; rfl, by simp [Declared.add]⟩
  | declares kind read =>
      rw [read s, read t, ht]
      exact ⟨ds, es ++ _, by rw [← List.append_assoc, ← hs]; rfl, by simp [Declared.add]⟩

/-- **Everything below is read alike**, with the declarations put in or without. -/
theorem Inserts.readLines (h : Inserts own s t) (hown : ∀ d ∈ own, d.kind ≠ .scriptClass)
    (functions : List Function) (n : Nat) (lines : List (List Char)) :
    Inserts own (s.readLines functions n lines) (t.readLines functions n lines) := by
  induction lines generalizing s t n with
  | nil => exact h
  | cons raw lines ih =>
      rw [Declared.readLines_cons, Declared.readLines_cons]
      exact ih (h.readLine hown functions (raw, n)) (n + 1)

/-- In the order of the lines, the declarations are the same without those put in. -/
theorem Inserts.agreeOutside (h : Inserts own s t) {first last : Nat}
    (hown : ∀ d ∈ own, first < d.line ∧ d.line ≤ last) :
    AgreeOutside first last t.sorted s.sorted := by
  obtain ⟨ds, es, hs, rfl⟩ := h
  have hnone : own.filter (fun d => d.line ≤ first || last < d.line) = [] := by
    refine List.filter_eq_nil_iff.mpr fun d hd => ?_
    have := hown d hd
    simpa using ⟨this.1, this.2⟩
  have hsort : ∀ l : List Declaration, (sortByNat (·.line) l).filter
      (fun d => d.line ≤ first || last < d.line) =
        sortByNat (·.line) (l.filter fun d => d.line ≤ first || last < d.line) :=
    filter_stableSort_comm (fun a b => by simpa using Nat.le_total a.line b.line)
      (fun a b c => by simpa using Nat.le_trans) _
  refine ⟨?_, rfl, rfl⟩
  simp only [Declared.sorted, hsort, hs, List.filter_append, hnone, List.append_nil]

end inserts

end Script

end GodotLint
