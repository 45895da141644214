import GodotLint.Fix.Basic
import GodotLint.Project.Load

/-!
# Fixing a project

A fixer is applied to every script of a project, or to one of them, and the scripts that it changes
are written back. What is written is the text that the project has of a script, so what reading
dropped or replaced is not restored.
-/

namespace GodotLint

/-- A script that a fixer changes. -/
structure FixedFile where
  file : String
  fixed : Fixed
  deriving DecidableEq, Repr

/-- Why the files of a project are not fixed. -/
inductive FixFault where
  /-- The file that the user asked for is no script of the project. -/
  | missingScript (file : String)
  | unwritable (path : String) (fault : DiskFault)
  deriving DecidableEq, Repr

/-- The reasons for a fault, the last one being the root of the others. -/
def FixFault.reasons : FixFault → List String
  | .missingScript file => ["file not found: " ++ file]
  | .unwritable path fault => ["writing " ++ path, fault.message]

namespace Fixer

/-- The change of a script, if there is one. -/
def applyTo? (f : Fixer) (s : Source) : Option FixedFile :=
  let fixed := f.apply s.text
  if fixed.isChanged then some ⟨s.path, fixed⟩ else none

/-- The changes of the scripts of a project, or of the one that the user means, which must be
there. -/
def applyToProject (f : Fixer) (p : Project) (file : Option String) :
    Except FixFault (List FixedFile) :=
  let sources := p.scripts.map (·.source)
  match file.map (Project.relativize p.root) with
  | none => .ok (sources.filterMap f.applyTo?)
  | some path =>
    if (p.script? path).isNone then .error (.missingScript path)
    else .ok ((sources.filter (·.path == path)).filterMap f.applyTo?)

end Fixer

namespace Disk

/-- Writes changed scripts below a root, up to the first one that cannot be written. -/
def writeFixed (d : Disk) (root : String) : List FixedFile → Disk × Option FixFault
  | [] => (d, none)
  | f :: rest =>
    let path := Path.underString root f.file
    match d.write path (Text.encode f.fixed.text) with
    | .ok d => d.writeFixed root rest
    | .error fault => (d, some (.unwritable path fault))

/-- Fixes the scripts of a project, or the one that the user means: the disk after it, and the
scripts that were changed. A dry run leaves the disk as it is. -/
def fix (d : Disk) (f : Fixer) (p : Project) (file : Option String) (isDryRun : Bool) :
    Disk × Except FixFault (List FixedFile) :=
  match f.applyToProject p file with
  | .error fault => (d, .error fault)
  | .ok files =>
    if isDryRun then (d, .ok files)
    else
      match d.writeFixed p.root files with
      | (d, none) => (d, .ok files)
      | (d, some fault) => (d, .error fault)

end Disk

end GodotLint
