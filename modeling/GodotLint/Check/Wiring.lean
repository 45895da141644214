import GodotLint.Check.Basic

/-!
# Checks of signals and input actions

Signals that nobody emits or connects, emissions of signals that nobody declares, and input actions
that the project does not define.
-/

namespace GodotLint.Check

/-! ## Signals -/

/-- The issue of a signal that is not used, or connected but never emitted. -/
def signalIssue? (s : SignalEntry) : Option Issue :=
  if s.isUnused then some
    { check := "signals", file := s.file, line := s.line, kind := "unused_signal"
      message := "signal '" ++ s.name ++ "' is never emitted or connected"
      severity := .warning
      suggestion := some "remove the signal or wire it up" }
  else if s.emits.isEmpty then some
    { check := "signals", file := s.file, line := s.line, kind := "signal_never_emitted"
      message := "signal '" ++ s.name ++ "' has " ++ toString s.connects.length ++
        " connection(s) but is never emitted"
      severity := .info }
  else none

/-- The issue of an emission of an unknown signal. -/
def undeclaredSignalIssue (r : Reference) : Issue :=
  { check := "signals", file := r.file, line := r.mention.line, kind := "undeclared_signal"
    message := "emits '" ++ r.mention.target ++ "' but no script declares that signal"
    severity := .warning }

/-- A signal as a summary value. -/
def signalSummary (s : SignalEntry) : Json :=
  .obj [("connects", .nat s.connects.length), ("emits", .nat s.emits.length),
    ("file", .str s.file), ("line", .nat s.line), ("name", .str s.name)]

/-- Signals are declared, emitted and connected. -/
def signals : Check where
  id := "signals"
  name := "Signal wiring"
  category := .engine
  inputs := [.scripts, .scenes]
  isQuick := true
  threshold := { metric := "summary.unused" }
  run c :=
    let entries := c.index.signals
    let declared := entries.filterMap signalIssue?
    let unknown := (c.index.referencesOf .signalEmit).filter (·.resolution = .unresolved)
    .finished
      { summary := .ofList [
          ("declared", .nat entries.length),
          ("unused", countKind "unused_signal" declared),
          ("never_emitted", countKind "signal_never_emitted" declared),
          ("undeclared_emits", .nat unknown.length),
          ("signals", .arr (entries.map signalSummary))]
        issues := declared ++ unknown.map undeclaredSignalIssue }

/-! ## Input actions -/

/-- Whether the engine provides an action. -/
def isBuiltinAction (action : String) : Bool := action.startsWith "ui_"

/-- The issue of the use of an unknown action. -/
def undefinedActionIssue (r : Reference) : Issue :=
  let action := r.mention.target
  { check := "input_actions", file := r.file, line := r.mention.line
    kind := "undefined_input_action"
    message := "input action \"" ++ action ++
      "\" is not defined in the project's [input] section"
    severity := .error
    suggestion := some ("add \"" ++ action ++ "\" under [input] in project.godot") }

/-- The actions that the scripts use are defined. Without project settings nothing is known of
them. -/
def inputActions : Check where
  id := "input_actions"
  name := "Input actions"
  category := .dataIntegrity
  inputs := [.scripts, .settings]
  isQuick := true
  threshold := { metric := "summary.undefined", failIfGe := some 1.0 }
  run c :=
    if c.project.settings.isNone then
      .finished
        { summary := .ofList [("project_file", .bool false), ("defined", .nat 0), ("used", .nat 0),
            ("undefined", .nat 0)] }
    else
      let uses := c.index.referencesOf .inputAction
      let used := sortedSet (uses.map (·.mention.target))
      let unknown := uses.filter fun r =>
        r.resolution = .unresolved && !isBuiltinAction r.mention.target
      .finished
        { summary := .ofList [
            ("project_file", .bool true),
            ("defined", .nat c.index.inputActions.size),
            ("used", .nat used.length),
            ("undefined", .nat unknown.length),
            ("undefined_actions", .strs (sortedSet (unknown.map (·.mention.target)))),
            ("unused_actions", .strs (c.index.inputActions.keys.filter (!used.contains ·)))]
          issues := unknown.map undefinedActionIssue }

end GodotLint.Check
