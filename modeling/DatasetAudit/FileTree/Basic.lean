import DatasetAudit.FileView
import DatasetAudit.Path
import DatasetAudit.Text.Utf8
import Std.Data.TreeMap
/-!
Trees of files and directories, and where paths lead in them. A path is followed part by part, and
every part needs a directory to start from. There are no links, so `..` always leads back to where
one came from. At some places the system may fail: what stands there is not given, or it cannot be
changed. A directory that is closed still lets paths through, and only names are bounded in length, not
whole paths.
-/

namespace DatasetAudit

/-- The place of a file or a directory: the names on the way from the root. -/
abbrev Location := List String

/-- What stands at a place. The time of a file is in nanoseconds since 1970. -/
inductive FileNode where
  | file (bytes : List UInt8) (mtimeNs : Int)
  | directory
deriving DecidableEq, Repr

/-- How the system fails at a place. It may be closed: neither the bytes of a file nor the names in a
directory are given, and nothing is made or written. It may be read only. Or writing breaks off: the
file is emptied, and of the new bytes some of the first are kept and the last is not. -/
inductive Fault where
  | closed (error : FileError)
  | readOnly (error : FileError)
  | breaksOff (kept : Nat) (error : FileError)
deriving DecidableEq, Repr

/-- A file tree, the directory from which relative paths start, and the places where the system fails.
The root needs no node. -/
structure FileTree where
  nodes : Std.TreeMap Location FileNode := ∅
  base : Location := []
  faults : Location → Option Fault := fun _ => none

namespace FileTree

/-- What stands at a place. -/
def node? (tree : FileTree) : Location → Option FileNode
  | [] => some .directory
  | place => tree.nodes[place]?

/-- The tree with a fault at a place. -/
def withFault (tree : FileTree) (place : Location) (fault : Fault) : FileTree :=
  { tree with faults := fun other => if other = place then some fault else tree.faults other }

/-- Why what stands at a place is not given. -/
def closed? (tree : FileTree) (place : Location) : Option FileError :=
  match tree.faults place with
  | some (.closed error) => some error
  | _ => none

/-- The greatest length of a name, in bytes. -/
def nameLimit : Nat := 255

/-- Where a part of a path leads. -/
def step (tree : FileTree) (place : Location) (part : PathPart) : Except FileError Location :=
  match tree.node? place, part with
  | none, _ => .error .notFound
  | some (.file _ _), _ => .error .notDirectory
  | some .directory, .current => .ok place
  | some .directory, .up => .ok place.dropLast
  | some .directory, .name name =>
    if nameLimit < name.utf8ByteSize then .error .nameTooLong else .ok (place ++ [name])

/-- Where the parts of a path lead, each from where the one before it led to. What the last one
leads to need not exist. -/
def follow (tree : FileTree) (place : Location) (parts : List PathPart) :
    Except FileError Location :=
  parts.foldlM tree.step place

/-- The place that a path starts from. -/
def start (tree : FileTree) (path : Path) : Location :=
  if path.absolute then [] else tree.base

/-- Whether a path can only stand for a directory: it ends with a slash or with `.`. -/
def isDirectoryPath (path : String) : Bool :=
  match path.toList.reverse with
  | '/' :: _ => true
  | '.' :: '/' :: _ => true
  | ['.'] => true
  | _ => false

/-- The directory at a place. -/
def directoryAt (tree : FileTree) (place : Location) : Except FileError Location :=
  match tree.node? place with
  | none => .error .notFound
  | some (.file _ _) => .error .notDirectory
  | some .directory => .ok place

/-- The place that a path leads to, whether something is there or not. -/
def locate (tree : FileTree) (path : String) : Except FileError Location :=
  if path.isEmpty then .error .notFound
  else if path.toList.contains '\x00' then .error .nulInName
  else do
    let parsed := Path.ofString path
    let place ← tree.follow (tree.start parsed) parsed.parts
    if isDirectoryPath path then tree.directoryAt place else .ok place

/-- What a path leads to. -/
def find (tree : FileTree) (path : String) : Except FileError (Location × FileNode) := do
  let place ← tree.locate path
  match tree.node? place with
  | some node => .ok (place, node)
  | none => .error .notFound

/-- Whether a path leads to a directory. -/
def isDirectory (tree : FileTree) (path : String) : Bool :=
  match tree.find path with
  | .ok (_, .directory) => true
  | _ => false

/-- The absolute path of what a path leads to. -/
def canonical (tree : FileTree) (path : String) : Except FileError String :=
  (tree.find path).map fun (place, _) => "/" ++ "/".intercalate place

/-- The place of the directory that a path leads to, if its names are given. -/
def openDirectory (tree : FileTree) (path : String) : Except FileError Location := do
  let place ← tree.directoryAt (← tree.locate path)
  match tree.closed? place with
  | some error => .error error
  | none => .ok place

/-- A time before 1970 has no number, and a time too far in the future has the last one. -/
def statTime (mtimeNs : Int) : Int64 :=
  if mtimeNs < 0 then -1 else Int64.ofInt (min mtimeNs Int64.maxValue.toInt)

/-- The size and the time of what a path leads to. A directory has no bytes and no time. -/
def stat (tree : FileTree) (path : String) : Except FileError FileStat :=
  (tree.find path).map fun
    | (_, .file bytes mtimeNs) => ⟨UInt64.ofNat bytes.length, statTime mtimeNs⟩
    | (_, .directory) => ⟨0, -1⟩

/-- The bytes of the file that a path leads to. -/
def read (tree : FileTree) (path : String) : Except FileError (List UInt8) := do
  let (place, node) ← tree.find path
  match tree.closed? place, node with
  | some error, _ => .error error
  | none, .file bytes _ => .ok bytes
  | none, .directory => .error .isDirectory

/-- The text of the file that a path leads to. -/
def readText (tree : FileTree) (path : String) : Except FileError String := do
  match Utf8.decode? (← tree.read path) with
  | some text => .ok text
  | none => .error .notText

/-- The names on the way from a directory down to a file, if the file lies below it. -/
def fileBelow? (place : Location) : Location × FileNode → Option Location
  | (other, .file _ _) => if place.isPrefixOf other then some (other.drop place.length) else none
  | (_, .directory) => none

/-- The names on the way from a directory down to one that is closed, if that lies below it, and why
it is closed. -/
def closedBelow? (tree : FileTree) (place : Location) :
    Location × FileNode → Option (Location × FileError)
  | (_, .file _ _) => none
  | (other, .directory) =>
    if place.isPrefixOf other then (tree.closed? other).map (other.drop place.length, ·) else none

/-- Where a walk over a directory stops: at the directory itself, or at the first one below it, if it
is closed. -/
def stop? (tree : FileTree) (place : Location) : Option (Location × FileError) :=
  match tree.closed? place with
  | some error => some ([], error)
  | none => tree.nodes.toList.findSome? (tree.closedBelow? place)

/-- The files below a directory, at any depth, by the names on the way there. They are in ascending
order. A walk that is stopped gives none. -/
def filesBelow (tree : FileTree) (place : Location) :
    Except (Location × FileError) (List Location) :=
  match tree.stop? place with
  | some stop => .error stop
  | none => .ok (tree.nodes.toList.filterMap (fileBelow? place))

/-- What the tree answers about single files. -/
def view (tree : FileTree) : FileView :=
  ⟨tree.stat, tree.read⟩

end FileTree

end DatasetAudit
