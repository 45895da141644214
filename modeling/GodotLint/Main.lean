import GodotLint.CommandLine.Dispatch
import Std.Time

/-!
# The program

The arguments are read, what the command needs is taken from the file system as a disk, the command
works on that disk, and the files that it changed are written back.
-/

namespace GodotLint.Program

open GodotLint

/-! ## Taking a disk from the file system -/

/-- The place of an absolute path. -/
def placeOf (path : String) : Place := (Disk.namesOf path).filter (!Disk.isIdle ·)

/-- What was taken from the file system. -/
structure Snapshot where
  tree : FileTree := .directory []
  /-- The directories that were taken in whole. -/
  directories : List Place := []

/-- Puts something into a snapshot. -/
def Snapshot.put (s : Snapshot) (place : Place) (t : FileTree) : Snapshot :=
  { s with tree := s.tree.put place t }

/-- The extensions of the files whose content matters. -/
def readExtensions : List String := ["gd", "tscn", "json", "godot", "yaml"]

/-- Whether the content of a file matters. -/
def isRead (path : String) : Bool :=
  readExtensions.any fun extension => Path.extension? path.toList == some extension.toList

/-- The target of a link that leads nowhere. -/
def nowhere : String := "/\x7f"

/-- Takes a file or a directory, with all that links in it lead to. -/
partial def capture (s : Snapshot) (path : String) (withContent : Bool) : IO Snapshot := do
  let real ← IO.FS.realPath path
  let place := placeOf real.toString
  match (← real.metadata).type with
  | .file =>
    let content ← if withContent then IO.FS.readBinFile real else pure ByteArray.empty
    return s.put place (.file content.toList)
  | .dir =>
    if s.directories.contains place then return s
    let mut s := { s with directories := place :: s.directories }
    if (s.tree.at? place).isNone then s := s.put place (.directory [])
    for entry in ← real.readDir do
      let inner := entry.path.toString
      match (← entry.path.symlinkMetadata).type with
      | .symlink =>
        let target? ← try some <$> IO.FS.realPath entry.path catch _ => pure none
        s := s.put (place ++ [entry.fileName]) (.link ((target?.map (·.toString)).getD nowhere))
        if let some target := target? then
          if ← target.pathExists then s ← capture s target.toString (isRead target.toString)
      | .dir => if !entry.fileName.startsWith "." then s ← capture s inner false
      | _ => s ← capture s inner (isRead inner)
    return s
  | _ => return s

/-- Takes what is at a path, if something is there. -/
def captureIfThere (s : Snapshot) (path : String) : IO Snapshot :=
  try capture s path true catch _ => return s

/-- Takes the directory that a path lies in, without what is in it. -/
def captureParent (s : Snapshot) (path : String) : IO Snapshot :=
  try
    let real ← IO.FS.realPath (Path.underString (str (Path.directory path.toList)) ".")
    let place := placeOf real.toString
    return if (s.tree.at? place).isSome then s else s.put place (.directory [])
  catch _ => return s

/-- The file that a command writes its report to. -/
def reportFile? : Command → Option String
  | .check _ target .. => target.file
  | .run target .. => target.file
  | _ => none

/-- The disk that a command needs. -/
def diskFor (i : Invocation) : IO Disk := do
  let here := (← IO.currentDir).toString
  let outer := (Path.ancestors here.toList).map fun directory =>
    Path.underString (str directory) Settings.fileName
  let mut s : Snapshot := Snapshot.put {} (placeOf here) (.directory [])
  for path in outer do
    s ← captureIfThere s path
  let root := i.rootOn { root := s.tree, here := placeOf here }
  for path in [root] ++ i.config.toList do
    s ← captureIfThere s path
  if let some path := reportFile? i.command then
    s ← captureIfThere (← captureParent s path) path
  return { root := s.tree, here := placeOf here }

/-! ## Writing it back -/

/-- Whether a tree has a file of this content at a place. -/
def hasFile (t : FileTree) (place : Place) (content : List UInt8) : Bool :=
  match t.at? place with
  | some (.file old) => old == content
  | _ => false

/-- Writes the files that differ from what they were. -/
def writeBack (before after : FileTree) : IO Unit := do
  for (place, content) in after.files [] do
    if !hasFile before place content then
      IO.FS.writeBinFile (Disk.pathOf place) (ByteArray.mk content.toArray)

/-! ## Running -/

/-- The current time as reports show it. -/
def now : IO String := do
  let time ← Std.Time.Timestamp.now
  return (Std.Time.DateTime.ofTimestampWithZone time .UTC).format "uuuu-MM-dd'T'HH:mm:ss'Z'"

/-- How the program is called. -/
def usage : String :=
  "Usage: " ++ Report.toolName ++ " [--root DIR] [--config FILE] [-v] COMMAND [OPTIONS]\n\n" ++
    "Commands: " ++ joinWith ", " (CommandLine.Verb.all.map (·.name))

/-- Tells why the arguments are no invocation. -/
def explain (fault : CommandLine.UsageFault) : IO UInt32 := do
  match fault with
  | .help => IO.println usage
  | .version => IO.println (Report.toolName ++ " " ++ Report.toolVersion)
  | _ => IO.eprintln usage
  return fault.exitCode.toUInt32

/-- Does what the user wants. -/
def serve (i : Invocation) : IO UInt32 := do
  let disk ← diskFor i
  let result := i.dispatch disk (← now)
  writeBack disk.root result.disk.root
  IO.print result.output
  IO.eprint result.notes
  if let some reasons := result.failure then
    IO.eprintln ("Error: " ++ joinWith ": " reasons)
  return result.exitCode.toUInt32

end GodotLint.Program

/-- Reads the arguments and does what they say. -/
def main (arguments : List String) : IO UInt32 :=
  match GodotLint.Invocation.ofArguments arguments with
  | .ok invocation => GodotLint.Program.serve invocation
  | .error fault => GodotLint.Program.explain fault
