import GodotLint.Disk.Walk
import GodotLint.Project.Basic

/-!
# Discovery

The files of a project are those that a walk from its root visits. Scripts, scenes and data files
are told by their extension; those in skipped directories and excluded ones are not analysed, but
are there for references. All lists are in the order of the paths from the root.
-/

namespace GodotLint

/-- A file that a walk visited. -/
structure FoundFile where
  /-- The path on the disk. -/
  path : String
  /-- The path from the root of the project. -/
  relative : String
  deriving DecidableEq, Repr

namespace FoundFile

/-- The path that names make from the root of a project. -/
def relativeOf (names : List String) : String := str (Path.withSlashes (joinWith "/" names).toList)

/-- Whether a file has an extension. -/
def hasExtension (f : FoundFile) (extension : String) : Bool :=
  Path.extension? f.path.toList == some extension.toList

end FoundFile

/-- The files of a project. -/
structure Discovery where
  scripts : List FoundFile
  scenes : List FoundFile
  data : List FoundFile
  /-- The paths of all files from the root, analysed or not. -/
  files : List String
  /-- What the walk could not visit, by the path from the root. -/
  faults : List (String × WalkFault)

namespace Discovery

/-- The file that a step of a walk from `root` visits. -/
def fileOf? (root : String) : WalkStep → Option FoundFile
  | .file names => some ⟨Walk.pathOf root names, FoundFile.relativeOf names⟩
  | .fault _ _ => none

/-- The fault that a step of a walk is. -/
def faultOf? : WalkStep → Option (String × WalkFault)
  | .file _ => none
  | .fault names what => some (FoundFile.relativeOf names, what)

/-- Selects the files of a project among the steps of a walk from its root. -/
def ofSteps (root : String) (config : Config) (steps : List WalkStep) : Discovery :=
  let files := stableSort (fun a b => a.relative ≤ b.relative) (steps.filterMap (fileOf? root))
  let analysed := files.filter fun f => !config.skipsPath f.relative && !config.excludes f.relative
  { scripts := analysed.filter (·.hasExtension "gd")
    scenes := analysed.filter (·.hasExtension "tscn")
    data := analysed.filter (·.hasExtension "json")
    files := files.map (·.relative)
    faults := steps.filterMap faultOf? }

end Discovery

/-- The files of the project with a root. -/
def Disk.discover (d : Disk) (root : String) (config : Config) : Discovery :=
  .ofSteps root config (d.walk root)

end GodotLint
