import GodotLint.Graph.LoadOrder
import GodotLint.Graph.Basic
import GodotLint.Index.Builtin
import GodotLint.Project.DataFile
import GodotLint.Project.Scene
import GodotLint.Project.Settings
import GodotLint.Project.Source
import GodotLint.Script.Facts

/-!
# The project index

What is known of a project as a whole: who declares which class, signal, function and id, who uses
it, and how every mention in the scripts resolves. Each table is computed from the parts of the
project on its own; all of them list files in the order of their paths.
-/

namespace GodotLint

open Text

/-- A script and its facts. -/
structure Script where
  source : Source
  facts : Facts

namespace Script

/-- The path of the script. -/
def path (s : Script) : String := s.source.path

/-- A script with its facts read from its lines. -/
def ofSource (source : Source) : Script := { source, facts := .ofLines source.lines }

end Script

/-- A place in the project. -/
structure Site where
  file : String
  line : Nat
  deriving DecidableEq, Repr

/-- A class that a script declares. -/
structure ClassEntry where
  name : String
  file : String
  line : Nat
  base : Option String
  methods : List String
  signals : List String
  deriving DecidableEq, Repr

/-- A signal that a script declares. -/
structure SignalEntry where
  name : String
  file : String
  line : Nat
  emits : List Site
  connects : List Site
  deriving DecidableEq, Repr

/-- A signal that nobody emits or connects. -/
def SignalEntry.isUnused (s : SignalEntry) : Bool := s.emits.isEmpty && s.connects.isEmpty

/-- A singleton and what it has to do with the scripts. -/
structure AutoloadEntry where
  decl : Autoload
  /-- The script behind the singleton. -/
  script : Option String
  /-- The declared path names a file of the project. -/
  present : Bool
  /-- The other singletons that its script uses, in rising order. -/
  deps : List String
  /-- The files that use it, once for each use. -/
  uses : List String
  deriving DecidableEq, Repr

namespace AutoloadEntry

/-- The name of the singleton. -/
def name (a : AutoloadEntry) : String := a.decl.name

/-- The files that use the singleton, each once. -/
def users (a : AutoloadEntry) : List String := sortedSet a.uses

end AutoloadEntry

/-- How a mention resolves. -/
inductive Resolution where
  /-- To a file or an entry of a table. -/
  | resolved (target : String)
  /-- To nothing in the project or the engine. -/
  | unresolved
  /-- Only known when the game runs. -/
  | runtime
  /-- To something that the engine provides. -/
  | external
  deriving DecidableEq, Repr

/-- A mention in a file and how it resolves. -/
structure Reference where
  file : String
  mention : Mention
  resolution : Resolution
  deriving DecidableEq, Repr

/-- A load of a file that is not in the project. -/
structure BrokenLoad where
  file : String
  load : Load
  deriving DecidableEq, Repr

/-- What is known of a project as a whole. -/
structure Index where
  /-- The first declaration of each class. -/
  classes : SortedMap ClassEntry
  classOfFile : SortedMap String
  /-- The sites of classes that more than one file declares. -/
  duplicateClasses : SortedMap (List Site)
  signals : List SignalEntry
  /-- In the order of declaration. -/
  autoloads : List AutoloadEntry
  autoloadOrder : List String
  /-- Every singleton is loaded after those that it uses. -/
  autoloadOrderComplete : Bool
  inputActions : SortedMap Nat
  /-- Which script depends on which. -/
  imports : Graph
  brokenLoads : List BrokenLoad
  functions : SortedMap (List Site)
  dictKeys : SortedMap (List Site)
  magicNumbers : SortedMap (List Site)
  /-- How often each identifier occurs in the code of each file. -/
  identifiers : SortedMap (SortedMap Nat)
  /-- The values of all string literals. -/
  stringValues : List String
  /-- The methods that scenes connect signals to. -/
  sceneMethods : List String
  /-- The scenes that attach each script. -/
  sceneScripts : SortedMap (List String)
  /-- The data files that declare each id. -/
  dataIds : SortedMap (List String)
  references : List Reference

namespace Index

/-- A map from the keys of the pairs to the lists of their values. -/
def group (pairs : List (String × α)) : SortedMap (List α) :=
  pairs.foldl (fun m (key, x) => m.append key x) .empty

/-! ## Declarations -/

/-- The class that a script declares. -/
def classEntry? (s : Script) : Option ClassEntry :=
  s.facts.className.map fun (name, line) =>
    { name, file := s.path, line
      base := s.facts.base.map (·.target)
      methods := (s.facts.functions.filter (·.indent = 0)).map (·.name)
      signals := (s.facts.declarationsOf .signal).map (·.name) }

/-- The classes that the scripts declare, in their order. -/
def classEntries (scripts : List Script) : List ClassEntry := scripts.filterMap classEntry?

/-- The first declaration of each class. -/
def classTable (entries : List ClassEntry) : SortedMap ClassEntry :=
  entries.foldl (fun m e => m.insertIfNew e.name e) .empty

/-- The classes that are declared more than once, with all their sites. -/
def duplicateTable (entries : List ClassEntry) : SortedMap (List Site) :=
  ⟨(group (entries.map fun e => (e.name, Site.mk e.file e.line))).entries.filter
    fun (_, sites) => 2 ≤ sites.length⟩

/-- The sites of named facts of the scripts. -/
def siteTable (scripts : List Script) (named : Facts → List (String × Nat)) :
    SortedMap (List Site) :=
  group (scripts.flatMap fun s => (named s.facts).map fun (name, line) => (name, ⟨s.path, line⟩))

/-! ## Identifiers -/

/-- The identifiers in a text. -/
def identifiersIn (s : List Char) : List String :=
  (Pattern.ident.findAll s).map (·.whole.text)

/-- The identifiers in the code of a script, as often as they occur; string literals hold none. -/
def identifiersOf (s : Source) : List String :=
  s.lines.flatMap fun line => identifiersIn (Line.mask (Line.code line))

/-- How often each identifier occurs in each file. -/
def identifierTable (scripts : List Script) : SortedMap (SortedMap Nat) :=
  scripts.foldl (fun m s =>
    (identifiersOf s.source).foldl (fun m name =>
      m.alter name fun files => (files.getD .empty).count s.path) m) .empty

/-! ## Imports -/

/-- What a load comes to. -/
inductive LoadTarget where
  /-- A script. -/
  | script (path : String)
  /-- Another file of the project, or something outside it. -/
  | other
  /-- A file that is not there. -/
  | missing

/-- What a load of a file comes to. -/
def loadTarget (scripts files : List String) (file : String) (load : Load) : LoadTarget :=
  match Path.resolveString? file load.target with
  | none => .other
  | some path =>
    if scripts.contains path then .script path
    else if files.contains path then .other
    else .missing

/-- Adds a script and what it depends on to the graph of imports. -/
def addImports (scripts files : List String) (classes : SortedMap ClassEntry) (g : Graph)
    (s : Script) : Graph :=
  let g := s.facts.loads.foldl (fun g load =>
    match loadTarget scripts files s.path load with
    | .script path =>
      if path == s.path then g
      else g.addEdge { source := s.path, target := path, kind := load.kind, line := load.line }
    | _ => g) (g.addNode s.path)
  match s.facts.base with
  | some base =>
    match base.isPath, classes.get? base.target with
    | false, some entry =>
      if entry.file == s.path then g
      else g.addEdge { source := s.path, target := entry.file, kind := .extends, line := base.line }
    | _, _ => g
  | none => g

/-- The loads of files that are not there. -/
def brokenLoadsOf (scripts files : List String) (s : Script) : List BrokenLoad :=
  s.facts.loads.filterMap fun load =>
    match loadTarget scripts files s.path load with
    | .missing => some { file := s.path, load }
    | _ => none

/-! ## Singletons -/

/-- The name before the point of a qualified name. -/
def qualifier (target : String) : String := str (before (· == '.') target.toList)

/-- The names before the point of the qualified names that a script uses. -/
def qualifiers (f : Facts) : List String :=
  (f.mentions.filter (·.kind = .autoloadMember)).map fun m => qualifier m.target

/-- The script behind a declared path: that of the root node where the path names a scene. -/
def autoloadScript? (scenes : List Scene) (path : String) : Option String :=
  (Path.resolveString? "" path).bind fun target =>
    if target.endsWith ".tscn" then do
      let scene ← scenes.find? (·.file == target)
      let root ← scene.root?
      let script ← root.script
      Path.resolveString? target script
    else some target

/-- A singleton and what it has to do with the scripts. -/
def autoloadEntry (names : List String) (scripts : List Script) (scenes : List Scene)
    (files : List String) (decl : Autoload) : AutoloadEntry :=
  let script := autoloadScript? scenes decl.path
  let (own, others) := scripts.partition fun s => script == some s.path
  { decl, script
    present := (Path.resolveString? "" decl.path).any files.contains
    deps := sortedSet (own.flatMap fun s =>
      (qualifiers s.facts).filter fun q => q != decl.name && names.contains q)
    uses := others.flatMap fun s =>
      ((qualifiers s.facts).filter (· == decl.name)).map fun _ => s.path }

/-- The singletons in the order of declaration. -/
def autoloadEntries (scripts : List Script) (scenes : List Scene) (files : List String)
    (settings : Settings) : List AutoloadEntry :=
  settings.autoloads.map (autoloadEntry (settings.autoloads.map (·.name)) scripts scenes files)

/-- What each singleton depends on. -/
def autoloadDependencies (autoloads : List AutoloadEntry) : LoadOrder.Dependencies :=
  .ofList (autoloads.map fun a => (a.name, a.deps))

/-! ## Signals -/

/-- The sites at which the scripts mention a target in a way. -/
def mentionSites (scripts : List Script) (kind : MentionKind) : List (String × Site) :=
  scripts.flatMap fun s =>
    (s.facts.mentions.filter (·.kind = kind)).map fun m => (m.target, ⟨s.path, m.line⟩)

/-- The sites at which one script connects or awaits a signal. -/
def connectSitesOf (s : Script) : List (String × Site) :=
  (s.facts.mentions.filter (·.kind = .signalConnect)).map (fun m => (m.target, ⟨s.path, m.line⟩)) ++
    s.facts.awaits.map fun a => (str (trim (afterLast '.' a.expr.toList)), ⟨s.path, a.line⟩)

/-- The sites at which scripts and scenes connect or await a signal. -/
def connectSites (scripts : List Script) (scenes : List Scene) : List (String × Site) :=
  scripts.flatMap connectSitesOf ++
    scenes.flatMap fun scene => scene.connections.map fun c => (c.signal, ⟨scene.file, c.line⟩)

/-- The signals that the scripts declare, with their uses. -/
def signalEntries (scripts : List Script) (scenes : List Scene) : List SignalEntry :=
  let emits := group (mentionSites scripts .signalEmit)
  let connects := group (connectSites scripts scenes)
  scripts.flatMap fun s => (s.facts.declarationsOf .signal).map fun d =>
    { name := d.name, file := s.path, line := d.line
      emits := (emits.get? d.name).getD []
      connects := (connects.get? d.name).getD [] }

/-! ## Resolution of mentions -/

/-- The tables that mentions are resolved against. -/
structure Tables where
  files : List String
  classes : SortedMap ClassEntry
  signals : List SignalEntry
  autoloads : List AutoloadEntry
  inputActions : SortedMap Nat

/-- How the name of a class or singleton resolves in a file that declares the names `locals`. -/
def Tables.resolveName (t : Tables) (name file : String) (locals : List String) : Resolution :=
  if locals.contains name then .resolved file
  else
    match t.classes.get? name, t.autoloads.find? (·.name == name) with
    | some entry, _ => .resolved entry.file
    | none, some a => .resolved (a.script.getD a.decl.path)
    | none, none => if Builtin.classes.contains name then .external else .unresolved

/-- How a resource path resolves. -/
def Tables.resolvePath (t : Tables) (target file : String) : Resolution :=
  match Path.resolveString? file target with
  | some path => if t.files.contains path then .resolved path else .unresolved
  | none => .external

/-- How a signal resolves. -/
def Tables.resolveSignal (t : Tables) (name : String) : Resolution :=
  match t.signals.find? (·.name == name) with
  | some s => .resolved s.file
  | none => if Builtin.signals.contains name then .external else .unresolved

/-- How an input action resolves. -/
def Tables.resolveAction (t : Tables) (name : String) : Resolution :=
  if t.inputActions.contains name then .resolved Settings.fileName
  else if name.startsWith "ui_" then .external
  else .unresolved

/-- How a mention in a file resolves. -/
def Tables.resolve (t : Tables) (file : String) (locals : List String) (m : Mention) : Resolution :=
  match m.kind with
  | .resourcePath => t.resolvePath m.target file
  | .className => t.resolveName m.target file locals
  | .autoloadMember => t.resolveName (qualifier m.target) file locals
  | .signalEmit => t.resolveSignal m.target
  | .signalConnect => t.resolveSignal m.target
  | .inputAction => t.resolveAction m.target
  | .dictKey => .resolved m.target
  | .magicNumber => .resolved m.target
  | .nodePath => .runtime
  | .awaitTarget => .runtime

/-- The names that a script declares for itself. -/
def localNames (f : Facts) : List String :=
  (f.declarations.filter fun d =>
    d.kind = .innerClass || d.kind = .enum || d.kind = .constant).map (·.name)

/-- All mentions of a script: those of its lines, then nodes, awaited expressions, keys and
numbers. -/
def allMentions (f : Facts) : List Mention :=
  f.mentions ++
  f.nodeRefs.map (fun n =>
    { kind := .nodePath, target := n.path, line := n.line, function := n.function }) ++
  f.awaits.map (fun a =>
    { kind := .awaitTarget, target := a.expr, line := a.line, function := a.function }) ++
  f.accesses.map (fun d =>
    { kind := .dictKey, target := d.key, line := d.line, function := none }) ++
  f.numbers.map fun n =>
    { kind := .magicNumber, target := n.value, line := n.line, function := some n.function }

/-- Order by file, line, kind and target. -/
def referenceOrder (a b : Reference) : Ordering :=
  thenBy (compare a.file b.file) <|
    thenBy (compare a.mention.line b.mention.line) <|
      thenBy (compare a.mention.kind.rank b.mention.kind.rank)
        (compare a.mention.target b.mention.target)

/-- The mentions of all scripts and how they resolve. -/
def resolveAll (t : Tables) (scripts : List Script) : List Reference :=
  stableSort (fun a b => (referenceOrder a b).isLE) (scripts.flatMap fun s =>
    (allMentions s.facts).map fun mention =>
      { file := s.path, mention, resolution := t.resolve s.path (localNames s.facts) mention })

/-! ## The whole index -/

/-- The index of a project. -/
def build (scripts : List Script) (scenes : List Scene) (data : List DataFile)
    (settings : Option Settings) (files : List String) : Index :=
  let entries := classEntries scripts
  let classes := classTable entries
  let paths := scripts.map (·.path)
  let autoloads := settings.elim [] (autoloadEntries scripts scenes files)
  let (autoloadOrder, autoloadOrderComplete) :=
    LoadOrder.compute (autoloads.map (·.name)) (autoloadDependencies autoloads)
  let inputActions := (settings.elim [] (·.inputActions)).foldl
    (fun m (name, line) => m.insertIfNew name line) .empty
  let signals := signalEntries scripts scenes
  { classes
    classOfFile := .ofList (entries.map fun e => (e.file, e.name))
    duplicateClasses := duplicateTable entries
    signals
    autoloads
    autoloadOrder
    autoloadOrderComplete
    inputActions
    imports := scripts.foldl (addImports paths files classes) .empty
    brokenLoads := scripts.flatMap (brokenLoadsOf paths files)
    functions := siteTable scripts fun f => f.functions.map fun d => (d.name, d.line)
    dictKeys := siteTable scripts fun f => f.accesses.map fun a => (a.key, a.line)
    magicNumbers := siteTable scripts fun f => f.numbers.map fun n => (n.value, n.line)
    identifiers := identifierTable scripts
    stringValues := sortedSet (scripts.flatMap fun s => s.facts.strings.map (·.value))
    sceneMethods := sortedSet (scenes.flatMap fun s =>
      (s.connections.map (·.method)).filter (· != ""))
    sceneScripts := group (scenes.flatMap fun s => s.scripts.map fun script => (script, s.file))
    dataIds := group (data.flatMap fun d => d.ids.keys.map fun id => (id, d.file))
    references := resolveAll { files, classes, signals, autoloads, inputActions } scripts }

/-! ## Questions -/

/-- The singleton of a name. -/
def autoload? (ix : Index) (name : String) : Option AutoloadEntry :=
  ix.autoloads.find? (·.name == name)

/-- The scripts behind singletons, each once. -/
def autoloadScripts (ix : Index) : List String := sortedSet (ix.autoloads.filterMap (·.script))

/-- The file that declares a class. -/
def classFile? (ix : Index) (name : String) : Option String := (ix.classes.get? name).map (·.file)

/-- How often an identifier occurs in each file. -/
def occurrences (ix : Index) (name : String) : List (String × Nat) :=
  ((ix.identifiers.get? name).map (·.entries)).getD []

/-- How often an identifier occurs in a file. -/
def occurrencesIn (ix : Index) (name file : String) : Nat :=
  ((ix.occurrences name).lookup file).getD 0

/-- The files other than one in which an identifier occurs. -/
def otherFiles (ix : Index) (name file : String) : List String :=
  ((ix.occurrences name).map (·.1)).filter (· != file)

/-- The references of one kind. -/
def referencesOf (ix : Index) (kind : MentionKind) : List Reference :=
  ix.references.filter (·.mention.kind = kind)

/-- The number of mentions that resolve to nothing. -/
def unresolvedCount (ix : Index) : Nat := ix.references.countP (·.resolution = .unresolved)

end Index

end GodotLint
