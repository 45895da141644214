import GodotLint.Project.Settings

/-!
# What can be wrong with a project's inputs

Every cause has a tag, which reports use as the kind of an issue, and a message.
-/

namespace GodotLint

/-- Why an input could not be used. -/
inductive InputFault where
  | missingRoot (root : String)
  | missingFile (file : String)
  /-- The system refused to read a file. -/
  | unreadable (path reason : String)
  /-- The walk through the tree could not enter a path. -/
  | unreachable (reason : String)
  | malformedJson (file reason : String)
  | malformedSettings (line : Nat) (fault : SettingsFault)
  | invalidConfig (path reason : String)
  deriving DecidableEq, Repr

namespace InputFault

/-- The tag of the cause. -/
def kind : InputFault → String
  | .missingRoot _ => "missing_root"
  | .missingFile _ => "missing_file"
  | .unreadable _ _ => "unreadable_file"
  | .unreachable _ => "unreadable_file"
  | .malformedJson _ _ => "malformed_json"
  | .malformedSettings _ _ => "malformed_project_file"
  | .invalidConfig _ _ => "invalid_config"

/-- The words for the cause. -/
def message : InputFault → String
  | .missingRoot root => "project root " ++ root ++ " does not exist or is not a directory"
  | .missingFile file => "requested file " ++ file ++ " is not part of the project"
  | .unreadable path reason => "reading " ++ path ++ ": " ++ reason
  | .unreachable reason => reason
  | .malformedJson file reason => "malformed JSON in " ++ file ++ ": " ++ reason
  | .malformedSettings line fault =>
    "malformed project file at line " ++ toString line ++ ": " ++ fault.message
  | .invalidConfig path reason => "invalid config " ++ path ++ ": " ++ reason

end InputFault

/-- The inputs of a project. -/
inductive Input where
  | scripts
  | scenes
  | data
  | settings
  deriving DecidableEq, Repr

/-- The place of an input in reports. -/
def Input.rank : Input → Nat
  | .scripts => 0
  | .scenes => 1
  | .data => 2
  | .settings => 3

/-- A fault of one file. -/
structure FileFault where
  input : Input
  file : String
  fault : InputFault
  deriving DecidableEq, Repr

/-- Order by input, file and message. -/
def FileFault.compare (a b : FileFault) : Ordering :=
  thenBy (Ord.compare a.input.rank b.input.rank) <|
    thenBy (Ord.compare a.file b.file) (Ord.compare a.fault.message b.fault.message)

end GodotLint
