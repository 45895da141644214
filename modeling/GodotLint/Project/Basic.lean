import GodotLint.Config.Basic
import GodotLint.Glob.Basic
import GodotLint.Index.Basic
import GodotLint.Project.Fault

/-!
# Projects

A project is its scripts, scenes, data files and settings, each read on its own, together with the
list of all its files and the index over all of them. Inputs that cannot be read become faults of
their files and stop nothing.
-/

namespace GodotLint

open Text

/-- A project that was read. -/
structure Project where
  /-- The directory of the project. -/
  root : String
  config : Config
  settings : Option Settings
  /-- In the order of their paths. -/
  scripts : List Script
  scenes : List Scene
  data : List DataFile
  /-- The paths of all files, in rising order. -/
  files : List String
  faults : List FileFault
  index : Index

namespace Project

/-- The text of a file that is no script. -/
structure Document where
  path : String
  text : List Char

/-- Whether a file is a scene. -/
def isScene (path : String) : Bool := path.endsWith ".tscn"

/-- The scenes among the documents, sorted by path. -/
def scenesOf (files : List String) (documents : List Document) : List Scene :=
  stableSort (fun a b => a.file ≤ b.file)
    ((documents.filter fun d => d.path != Settings.fileName && isScene d.path).map fun d =>
      Scene.parse d.path d.text files)

/-- The data files among the documents, sorted by path. -/
def dataOf (config : Config) (files : List String) (documents : List Document) : List DataFile :=
  stableSort (fun a b => a.file ≤ b.file)
    ((documents.filter fun d => d.path != Settings.fileName && !isScene d.path).map fun d =>
      DataFile.parse d.path d.text files config.data)

/-- The settings that the documents hold, each reading of the project file on its own. -/
def settingsOf (documents : List Document) : List Settings :=
  (documents.filter (·.path == Settings.fileName)).map fun d => Settings.parse d.text

/-- The faults that the project file has. -/
def faultsOfSettings (s : Settings) : List FileFault :=
  s.faults.map fun (line, fault) =>
    { input := .settings, file := Settings.fileName, fault := .malformedSettings line fault }

/-- The fault of a data file that is no document. -/
def faultOfData? (d : DataFile) : Option FileFault :=
  d.fault.map fun fault =>
    { input := .data, file := d.file, fault := .malformedJson d.file fault.message }

/-- Puts a project together from what was read of it. -/
def assemble (root : String) (config : Config) (sources : List Source)
    (documents : List Document) (files : List String) (faults : List FileFault) : Project :=
  let scripts := sources.map Script.ofSource
  let scenes := scenesOf files documents
  let data := dataOf config files documents
  let readings := settingsOf documents
  let settings := readings.getLast?
  let found := readings.flatMap faultsOfSettings ++ data.filterMap faultOfData?
  { root, config, settings, scripts, scenes, data, files
    faults := stableSort (fun a b => (a.compare b).isLE) (faults ++ found)
    index := .build scripts scenes data settings files }

/-- A project whose files are given with their texts. -/
def ofFiles (config : Config) (files : List (String × String)) : Project :=
  let sorted := stableSort (fun a b => a.1 ≤ b.1) files
  assemble "." config
    ((sorted.filter fun (path, _) => path.endsWith ".gd").map fun (path, text) =>
      Source.ofText path text.toList)
    ((sorted.filter fun (path, _) =>
      isScene path || path.endsWith ".json" || path == Settings.fileName).map fun (path, text) =>
        ⟨path, text.toList⟩)
    (sortedSet (files.map (·.1))) []

/-! ## Questions -/

/-- The script at a path, the last one if several have it. -/
def script? (p : Project) (path : String) : Option Script :=
  p.scripts.reverse.find? (·.path == path)

/-- Whether a path is one of the project's files. -/
def hasFile (p : Project) (path : String) : Bool := p.files.contains path

/-! ## Paths -/

/-- Drops every occurrence of a text at the start. -/
def dropAllStarts (start : List Char) (s : List Char) : (count : Nat) → List Char
  | 0 => s
  | count + 1 =>
    match afterPrefix? start s with
    | some rest => dropAllStarts start rest count
    | none => s

/-- The path from the root of the project that a user means. -/
def relativize (root path : String) : String :=
  let path := path.toList
  let relative := Path.withSlashes
    (if path.head? == some '/' then Path.below root.toList path else path)
  let relative := dropAllStarts ['.', '/'] relative relative.length
  str (dropAllStarts Path.resourcePrefix relative relative.length)

end Project

/-! ## Selection of files -/

namespace Config

/-- Whether a directory of this name is not analysed. Directories that start with a point never
are. -/
def skipsDirectory (c : Config) (name : List Char) : Bool :=
  name.head? == some '.' || c.skipDirs.contains (str name)

/-- Whether a file lies in a directory that is not analysed. -/
def skipsPath (c : Config) (path : String) : Bool :=
  (Path.segments path.toList).dropLast.any c.skipsDirectory

/-- Whether a file is excluded by a pattern. -/
def excludes (c : Config) (path : String) : Bool :=
  c.excludedPaths.any fun pattern => Glob.isMatch pattern path

end Config

end GodotLint
