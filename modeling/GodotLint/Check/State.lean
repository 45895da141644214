import GodotLint.Check.Basic

/-!
# Check of shared state

Only the simulation layer and the tests write to fields of the shared state.
-/

namespace GodotLint.Check

open Text

/-- The fields that are watched when the configuration names none. -/
def defaultStateFields : List String :=
  ["gold", "hp", "lives", "score", "wave", "day", "phase", "resources", "buildings", "structures",
    "towers", "enemies", "inventory", "upgrades", "research", "threat", "lesson_progress",
    "typing_stats", "unlocked", "flags"]

/-- Methods that change what they are called on. -/
def mutatingMethods : List String :=
  ["append", "append_array", "push_back", "push_front", "pop_back", "pop_front", "erase", "clear",
    "insert", "remove_at", "merge", "sort", "sort_custom", "resize", "fill", "assign", "shuffle",
    "reverse"]

open Pattern in
/-- A write to one of the fields: the field as group 1, its subscripts as group 2, and the operator
as group 3 or the method as group 4. -/
def stateMutationShape (fields : List String) : Pattern :=
  .wordEdge ++ .opt (.char '_') ++ lit "state." ++ .group 1 (word fields) ++
    .group 2 (.star (.char '[' ++ .star (charNotOf "]") ++ .char ']')) ++ blanks ++
    choice [.group 3 (.opt (charOf "-+*/%") ++ .char '=') ++ charNotOf "=",
      .char '.' ++ .group 4 (word mutatingMethods) ++ blanks ++ .char '(']

/-- How a match writes. -/
def mutationAction (m : Pattern.Match) : String :=
  match m.group? 3, m.group? 4 with
  | some operator, _ => "assigns with " ++ operator.text
  | none, some method => "calls " ++ method.text ++ "()"
  | none, none => "mutates"

/-- The writes on the lines of a script, outside literals. -/
def mutationsOf (shape : Pattern) (s : Script) : List (Nat × Pattern.Match) :=
  (s.source.lines.zipIdx 1).flatMap fun (raw, line) =>
    let code := Line.code raw
    if !contains "state.".toList code then []
    else
      (shape.findAll code).filterMap fun m =>
        if Line.isInsideLiteral code m.start then none else some (line, m)

/-- The issue of a write from outside the simulation layer. -/
def mutationIssue (s : Script) (line : Nat) (m : Pattern.Match) : Issue :=
  { check := "state_mutation", file := s.path, line, kind := "state_mutation_outside_sim"
    message := s.source.layer.name ++ " layer " ++ mutationAction m ++ " state." ++
      str (m.group 1) ++ str (m.group 2)
    severity := .error
    suggestion := some "route the change through a sim/ command or intent" }

/-- Whether scripts of a layer may write to the state. -/
def mayMutate (layer : Layer) : Bool := layer == .sim || layer == .tests

/-- The shared state is written to by the simulation alone. -/
def stateMutation : Check where
  id := "state_mutation"
  name := "State mutation layering"
  category := .architecture
  threshold := { metric := "summary.violations", failIfGe := some 1.0 }
  run c :=
    let configured := c.config.stateFields
    let fields := if configured.isEmpty then defaultStateFields else configured
    let shape := stateMutationShape fields
    let writes := c.scripts.flatMap fun s => (mutationsOf shape s).map fun w => (s, w)
    let violations := writes.filter fun (s, _) => !mayMutate s.source.layer
    .finished
      { summary := .ofList [
          ("fields", .strs fields),
          ("mutations", .nat writes.length),
          ("violations", .nat violations.length),
          ("by_field", .counts (tally (violations.map fun (_, _, m) => str (m.group 1)))),
          ("by_layer", .counts (tally (violations.map fun (s, _) => s.source.layer.name)))]
        issues := violations.map fun (s, line, m) => mutationIssue s line m }

end GodotLint.Check
