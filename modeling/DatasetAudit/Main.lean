import DatasetAudit.CommandLine.Files
import DatasetAudit.FileTree.Manifest
import Std.Time.DateTime.Timestamp
/-!
The program. Files that a command names are read by name. For a command that walks a dataset, the
files of the dataset are listed on standard input as `FileTree.Manifest` describes. What the command
leaves in the file tree is written, and the rest of its ending is printed.
-/

namespace DatasetAudit

/-- The time of the clock in nanoseconds since 1970. -/
def clockTime : IO Nat := do
  return (← Std.Time.Timestamp.now).toNanosecondsSinceUnixEpoch.val.toNat

/-- The tree with what stands at a path of the system. A file whose bytes are not given is closed; if
there is nothing, there is no tree either. -/
def takePath? (tree : FileTree) (path : String) (mtimeNs : Nat) : IO (Option FileTree) := do
  let place := tree.placeNamed path
  try
    let bytes := (← IO.FS.readBinFile path).toList
    return some (tree.insert place (.file bytes mtimeNs))
  catch
    | .inappropriateType .. => return some (tree.insert place .directory)
    | .permissionDenied _ code details =>
      let error := FileError.system s!"{details} (os error {code})"
      return some ((tree.insert place (.file [] mtimeNs)).withFault place (.closed error))
    | _ => return none

/-- The lines of standard input. -/
partial def inputLines (input : IO.FS.Stream) (lines : Array String) : IO (Array String) := do
  let line ← input.getLine
  if line.isEmpty then return lines
  inputLines input (lines.push (line.dropEndWhile (· == '\n')).copy)

/-- The tree with what a line of a list names. -/
def takeLine (tree : FileTree) (text : String) : IO FileTree := do
  let some line := ManifestLine.ofText? text
    | throw (IO.userError s!"not a line of a file list: {text}")
  let some tree ← takePath? tree line.path line.mtimeNs
    | throw (IO.userError s!"cannot read {line.path}")
  return tree

/-- The files that a command needs. A named file that is not there is left out. -/
def gather (command : CommandLine.Command) : IO FileTree := do
  let mut tree := FileTree.ofBase (toString (← IO.currentDir))
  for path in command.namedFiles do
    if let some found ← takePath? tree path 0 then
      tree := found
  if command.walks then
    for text in ← inputLines (← IO.getStdin) #[] do
      tree ← takeLine tree text
  return tree

/-- Writes a change of the file tree. -/
def carryOut (place : Location) : FileNode → IO Unit
  | .directory => IO.FS.createDirAll place.path
  | .file bytes _ => IO.FS.writeBinFile place.path (ByteArray.mk bytes.toArray)

/-- Runs the program with arguments on the files of the system. -/
def runProgram (arguments : List String) : IO UInt32 := do
  let started ← clockTime
  let tree ← match CommandLine.Command.parse arguments with
    | .ok command => gather command
    | .error _ => pure {}
  let ending := CommandLine.run {} tree ⟨started, ← clockTime⟩ arguments
  for (place, node) in ending.tree.changesSince tree do
    carryOut place node
  IO.print ending.output
  IO.eprint ending.message
  return UInt32.ofNat ending.exitCode

end DatasetAudit

/-- Runs the program; what the system refuses ends it with code 3. -/
def main (arguments : List String) : IO UInt32 := do
  try DatasetAudit.runProgram arguments
  catch error =>
    IO.eprintln s!"error: {error}"
    return 3
