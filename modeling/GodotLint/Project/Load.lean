import GodotLint.Config.Yaml
import GodotLint.Project.Discovery

/-!
# Projects on a disk

A project is loaded from a directory. Files that cannot be read become faults of the project; only a
root that is no directory, or a configuration that cannot be used, stops the load.
-/

namespace GodotLint

/-- A path that goes on from a directory. -/
def Path.underString (directory path : String) : String := str (under directory.toList path.toList)

namespace Disk

/-- The content of a file, or the fault of the input that it is. -/
def readInput (d : Disk) (path : String) : Except InputFault (List UInt8) :=
  (d.read path).mapError fun fault => .unreadable path fault.message

/-- The nearest directory that holds a project, among an absolute path and those above it. -/
def findRoot? (d : Disk) (path : String) : Option String :=
  ((Path.ancestors path.toList).map str).find? fun directory =>
    d.isFile (Path.underString directory Settings.fileName)

/-- A script on a disk. -/
def readSource (d : Disk) (path : String) : Except InputFault Source := do
  let relative := str (Path.withSlashes (Path.below ['.'] path.toList))
  return Source.ofBytes relative (← d.readInput path)

end Disk

/-! ## Configurations -/

namespace Config

/-- The names that a configuration may have in the root of a project, the first one first. -/
def fileNames : List String := ["gdscan.yaml", ".gdscan.yaml"]

/-- What is said of a text that is not in UTF-8. -/
def encodingReason : String := "stream did not contain valid UTF-8"

/-- The configuration in a file. -/
def ofFile (d : Disk) (path : String) : Except InputFault Config := do
  match Text.decodeStrict? (← d.readInput path) with
  | none => throw (.unreadable path encodingReason)
  | some text =>
    match ofText text with
    | .ok config => return config
    | .error fault => throw (.invalidConfig path fault.message)

/-- The configuration of a project: that of the given file, or the first one in its root, or the
default one. -/
def load (d : Disk) (root : String) (file : Option String) : Except InputFault Config :=
  match file <|> (fileNames.map (Path.underString root)).find? d.isFile with
  | some path => ofFile d path
  | none => .ok {}

end Config

/-! ## Projects -/

namespace Project

/-- Reads files, each as `read` says, apart from those that cannot be read. -/
def readAll (d : Disk) (input : FoundFile → Input) (read : FoundFile → List UInt8 → α) :
    List FoundFile → List α × List FileFault
  | [] => ([], [])
  | f :: rest =>
    let (found, faults) := readAll d input read rest
    match d.readInput f.path with
    | .ok bytes => (read f bytes :: found, faults)
    | .error fault => (found, { input := input f, file := f.relative, fault } :: faults)

/-- The input that a file belongs to that is no script. -/
def inputOf (f : FoundFile) : Input :=
  if f.relative == Settings.fileName then .settings
  else if isScene f.relative then .scenes
  else .data

/-- The project file in a root. -/
def settingsFile? (d : Disk) (root : String) : Option FoundFile :=
  let path := Path.underString root Settings.fileName
  if d.isFile path then some ⟨path, Settings.fileName⟩ else none

/-- Loads the project in a directory. -/
def load (d : Disk) (root : String) (config : Config) : Except InputFault Project :=
  if !d.isDirectory root then .error (.missingRoot root)
  else
    let found := d.discover root config
    let (sources, scriptFaults) := readAll d (fun _ => .scripts)
      (fun f bytes => Source.ofBytes f.relative bytes) found.scripts
    let (documents, otherFaults) := readAll d inputOf
      (fun f bytes => ⟨f.relative, Text.decode bytes⟩)
      (found.scenes ++ found.data ++ (settingsFile? d root).toList)
    let walkFaults : List FileFault := found.faults.map fun (file, what) =>
      { input := .scripts, file, fault := .unreachable what.message }
    .ok (assemble root config sources documents (sortedSet found.files)
      (walkFaults ++ scriptFaults ++ otherFaults))

end Project

end GodotLint
