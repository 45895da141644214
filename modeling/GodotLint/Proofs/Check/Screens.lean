import GodotLint.Proofs.Check.State
import GodotLint.Proofs.Script.Accesses
import GodotLint.Script.Resource

/-!
# Looks at a line that only save time

The readers of accesses, loads and node lookups and the check of shared state first look at the code of a
line for a few words, and search it with their patterns only if one of these stands there. Each of them is
given here with any such look, a `Screen`, in place of its own. A match of the patterns has one of the words
in it, wherever it stands, so nothing would be found on the lines that are passed over
(`screens_loseNothing`).
-/

namespace GodotLint

open Text Pattern

/-! ## Lines that are searched -/

/-- A look at the code of a line that tells whether it is searched. -/
abbrev Screen := List Char → Bool

/-- Every line is searched. -/
def Screen.all : Screen := fun _ => true

variable {α : Type} {screen : Screen}

/-- What is found in the code of the lines that are searched. -/
def searchLines (screen : Screen) (search : List Char → Nat → List α) (lines : List (List Char)) :
    List α :=
  (lines.zipIdx 1).flatMap fun (raw, line) =>
    let code := Line.code raw
    if !screen code then [] else search code line

/-- A look loses nothing if nothing is found where it passes over. -/
theorem searchLines_all {search : List Char → Nat → List α}
    (h : ∀ code line, screen code = false → search code line = []) (lines : List (List Char)) :
    searchLines .all search lines = searchLines screen search lines := by
  refine List.flatMap_congr fun (raw, line) _ => ?_
  change search (Line.code raw) line = if !screen (Line.code raw) then [] else search (Line.code raw) line
  cases hscreen : screen (Line.code raw) with
  | true => rfl
  | false => exact h _ line hscreen

/-- Work that looks at each line before it searches it, and comes to the same without the look. -/
structure LosesNothing (work : α) (workWith : Screen → α) (screen : Screen) : Prop where
  /-- The work is done with this look. -/
  screened : workWith screen = work
  /-- It comes to the same if every line is searched. -/
  unscreened : workWith .all = work

theorem LosesNothing.of_eq {work : α} {workWith : Screen → α} (hscreened : workWith screen = work)
    (hall : workWith .all = workWith screen) : LosesNothing work workWith screen :=
  ⟨hscreened, hall.trans hscreened⟩

/-! ## Readers of scripts -/

namespace Script

/-- The accesses in a line of code. -/
def accessesIn (code : List Char) (line : Nat) : List Access :=
  bracketAccesses code line ++ callAccesses code line

/-- The dictionary accesses of a script, with any look at its lines. -/
def accessesWith (screen : Screen) (lines : List (List Char)) : List Access :=
  stableSort Access.le (searchLines screen accessesIn lines)

/-- The loads in a line of code. -/
def loadsIn (functions : List Function) (code : List Char) (line : Nat) : List Load :=
  let function := Function.enclosingBody? functions line
  (loadCall.findAll code).filterMap fun m =>
    if Line.isInsideLiteral code m.start then none
    else some
      { kind := if m.group 1 == "preload".toList then .preload else .load
        target := str (m.group 2)
        line
        scope :=
          if function.isSome then .function
          else if contains "@onready".toList code then .onready
          else .classBody
        function
        binding := (binding.find? code).map fun b => str (b.group 1) }

/-- What a script loads, with any look at its lines. -/
def loadsWith (screen : Screen) (lines : List (List Char)) (functions : List Function)
    (base : Option Extends) : List Load :=
  sortByNat (·.line) ((base.bind loadOfBase).toList ++ searchLines screen (loadsIn functions) lines)

/-- The node lookups in a line of code. -/
def nodeRefsIn (functions : List Function) (code : List Char) (line : Nat) : List NodeRef :=
  let onready := contains "@onready".toList code
  let checked := nullCheck.occursIn code
  let function := Function.enclosingBody? functions line
  (lookupsIn code).map fun (_, kind, path) =>
    { kind, path, line, safe := kind == .getNodeOrNull || onready || checked, onready, function }

/-- The node lookups of a script, with any look at its lines. -/
def nodeRefsWith (screen : Screen) (lines : List (List Char)) (functions : List Function) :
    List NodeRef :=
  searchLines screen (nodeRefsIn functions) lines

/-- Whether a line can hold a load at all. -/
def mayLoad : Screen := contains "load".toList

/-- A call that loads names `load`, and so does one that preloads. -/
theorem loadsIn_eq_nil {code : List Char} (h : mayLoad code = false) (functions : List Function)
    (line : Nat) : loadsIn functions code line = [] := by
  have hcall : loadCall.asksFor ["load"] = true := by decide
  rw [mayLoad, ← containsAny_singleton] at h
  rw [loadsIn, findAll_eq_nil_of_asksFor hcall h]
  rfl

/-- The words of which one stands in every lookup. -/
def lookupWords : List String := ["$", "%", "get_node", "find_child"]

theorem mayLookUp_eq (code : List Char) : mayLookUp code = containsAny lookupWords code := by
  change _ = (contains ['$'] code || (contains ['%'] code || (contains "get_node".toList code ||
    (contains "find_child".toList code || false))))
  rw [mayLookUp, contains_singleton, contains_singleton, Bool.or_false, Bool.or_assoc, Bool.or_assoc]

/-- A lookup has the sign that it starts with or names what it calls. -/
theorem nodeRefsIn_eq_nil {code : List Char} (h : mayLookUp code = false) (functions : List Function)
    (line : Nat) : nodeRefsIn functions code line = [] := by
  have hdollar : dollarPath.asksFor lookupWords = true := by decide
  have hunique : uniqueName.asksFor lookupWords = true := by decide
  have hcall : lookupCall.asksFor lookupWords = true := by decide
  rw [mayLookUp_eq] at h
  rw [nodeRefsIn, lookupsIn, findAll_eq_nil_of_asksFor hdollar h, findAll_eq_nil_of_asksFor hunique h,
    findAll_eq_nil_of_asksFor hcall h]
  rfl

theorem accesses_losesNothing : LosesNothing accesses accessesWith mayAccess := by
  refine .of_eq ?_ ?_
  · funext lines
    refine congrArg (stableSort Access.le) (List.flatMap_congr fun (raw, line) _ => ?_)
    simp only [accessesOfLine, accessesIn]
    cases mayAccess (Line.code raw) <;> rfl
  · funext lines
    have hnone : ∀ code line, mayAccess code = false → accessesIn code line = [] :=
      fun _ line h => accesses_eq_nil_of_mayAccess h line
    rw [accessesWith, accessesWith, searchLines_all hnone]

theorem loads_losesNothing : LosesNothing loads loadsWith mayLoad := by
  refine .of_eq rfl ?_
  funext lines functions base
  rw [loadsWith, loadsWith, searchLines_all fun _ line h => loadsIn_eq_nil h functions line]

/-- A look for `preload` would pass over the calls of `load`. -/
example : loadsWith (contains "preload".toList) ["x = load('a.gd')".toList] [] none = [] ∧
    loads ["x = load('a.gd')".toList] [] none ≠ [] := by decide +kernel

theorem nodeRefs_losesNothing : LosesNothing nodeRefs nodeRefsWith mayLookUp := by
  refine .of_eq rfl ?_
  funext lines functions
  exact searchLines_all (fun _ line h => nodeRefsIn_eq_nil h functions line) lines

end Script

namespace Check

/-- The writes in a line of code. -/
def mutationsIn (shape : Pattern) (code : List Char) (line : Nat) : List (Nat × Pattern.Match) :=
  (shape.findAll code).filterMap fun m =>
    if Line.isInsideLiteral code m.start then none else some (line, m)

/-- The check of shared state, with any look at the lines of the scripts. -/
def stateMutationWith (screen : Screen) : Check :=
  { stateMutation with
    run := fun c =>
      let configured := c.config.stateFields
      let fields := if configured.isEmpty then defaultStateFields else configured
      let shape := stateMutationShape fields
      let writes := c.scripts.flatMap fun s =>
        (searchLines screen (mutationsIn shape) s.source.lines).map fun w => (s, w)
      let violations := writes.filter fun (s, _) => !mayMutate s.source.layer
      .finished
        { summary := .ofList [
            ("fields", .strs fields),
            ("mutations", .nat writes.length),
            ("violations", .nat violations.length),
            ("by_field", .counts (tally (violations.map fun (_, _, m) => str (m.group 1)))),
            ("by_layer", .counts (tally (violations.map fun (s, _) => s.source.layer.name)))]
          issues := violations.map fun (s, line, m) => mutationIssue s line m } }

/-- Whether a line can hold a write to the state at all. -/
def mayNameState : Screen := contains "state.".toList

theorem mutationsIn_eq_nil {code : List Char} (h : mayNameState code = false) (fields : List String)
    (line : Nat) : mutationsIn (stateMutationShape fields) code line = [] := by
  rw [mayNameState, ← containsAny_singleton] at h
  rw [mutationsIn, findAll_eq_nil_of_asksFor (asksFor_stateMutationShape fields) h]
  rfl

theorem stateMutation_losesNothing : LosesNothing stateMutation stateMutationWith mayNameState := by
  refine .of_eq rfl ?_
  have hnone : ∀ fields code line, mayNameState code = false →
      mutationsIn (stateMutationShape fields) code line = [] :=
    fun fields _ line h => mutationsIn_eq_nil h fields line
  unfold stateMutationWith
  simp only [searchLines_all (hnone _)]

end Check

/-- **The looks at a line lose nothing**: what a script accesses, loads and looks up, and what the check of
shared state makes of a project, is the same if no line is passed over. -/
theorem screens_loseNothing :
    LosesNothing Script.accesses Script.accessesWith Script.mayAccess ∧
      LosesNothing Script.loads Script.loadsWith Script.mayLoad ∧
      LosesNothing Script.nodeRefs Script.nodeRefsWith Script.mayLookUp ∧
      LosesNothing Check.stateMutation Check.stateMutationWith Check.mayNameState :=
  ⟨Script.accesses_losesNothing, Script.loads_losesNothing, Script.nodeRefs_losesNothing,
    Check.stateMutation_losesNothing⟩

end GodotLint
