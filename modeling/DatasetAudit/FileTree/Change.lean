import DatasetAudit.FileTree.Basic
/-!
Changes of a file tree: making directories, writing files, and taking things away. A change that
fails half-way leaves what it has done so far.
-/

namespace DatasetAudit.FileTree

/-- The tree with a node at a place. -/
def put (tree : FileTree) (place : Location) (node : FileNode) : FileTree :=
  { tree with nodes := tree.nodes.insert place node }

/-- Why nothing is made at a place and no file there is opened for writing. -/
def refused? (tree : FileTree) (place : Location) : Option FileError :=
  match tree.faults place with
  | some (.closed error) | some (.readOnly error) => some error
  | _ => none

/-- Makes one directory. The one above it has to be there, and nothing at its own place. -/
def makeDirectory (tree : FileTree) (place : Location) (parts : List PathPart) :
    Except FileError FileTree := do
  let target ← tree.follow place parts
  match parts.getLast?, tree.node? target, tree.refused? target with
  | some (.name _), none, none => .ok (tree.put target .directory)
  | some (.name _), none, some error => .error error
  | some (.name _), some _, _ => .error .alreadyThere
  | _, _, _ => (tree.directoryAt target).bind fun _ => .error .alreadyThere

/-- Whether the parts of a path lead to a directory. -/
def leadsToDirectory (tree : FileTree) (place : Location) (parts : List PathPart) : Bool :=
  match tree.follow place parts with
  | .ok target => tree.node? target == some .directory
  | .error _ => false

/-- Makes a directory whose name is given with its last part first, and those above it that are
missing. A directory that is there already is left alone. -/
def makeDirectories (tree : FileTree) (place : Location) :
    List PathPart → FileTree × Except FileError Unit
  | [] => (tree, .ok ())
  | last :: front =>
    let parts := (last :: front).reverse
    let settle (tree : FileTree) (error : FileError) : FileTree × Except FileError Unit :=
      (tree, if tree.leadsToDirectory place parts then .ok () else .error error)
    match tree.makeDirectory place parts with
    | .ok tree => (tree, .ok ())
    | .error .notFound =>
      match makeDirectories tree place front with
      | (tree, .error error) => (tree, .error error)
      | (tree, .ok ()) =>
        match tree.makeDirectory place parts with
        | .ok tree => (tree, .ok ())
        | .error error => settle tree error
    | .error error => settle tree error

/-- Makes the directory of a path, and those above it that are missing. -/
def createDirectories (tree : FileTree) (path : String) : FileTree × Except FileError Unit :=
  if path.toList.contains '\x00' then (tree, .error .nulInName)
  else
    let parsed := Path.ofString path
    tree.makeDirectories (tree.start parsed) parsed.parts.reverse

/-- The place of a file that is opened for writing. The directory has to be there, and the file may be
there already. -/
def openFile (tree : FileTree) (path : String) : Except FileError Location := do
  let place ← tree.locate path
  match tree.node? place, tree.refused? place with
  | some .directory, _ => .error .isDirectory
  | _, some error => .error error
  | _, none => .ok place

/-- Writes a file, in place of one that is there already. A file that cannot be opened is left alone;
one that is opened loses what it held, and if writing breaks off it is left with a beginning. -/
def write (tree : FileTree) (path : String) (bytes : List UInt8) (mtimeNs : Int) :
    FileTree × Except FileError Unit :=
  match tree.openFile path with
  | .error error => (tree, .error error)
  | .ok place =>
    match tree.faults place with
    | some (.breaksOff kept error) =>
      (tree.put place (.file (bytes.dropLast.take kept) mtimeNs), .error error)
    | _ => (tree.put place (.file bytes mtimeNs), .ok ())

/-- The places between the root and a place. -/
def placesAbove (place : Location) : List Location :=
  ((List.range place.length).drop 1).map place.take

/-- The tree with a node at a place and directories at all places above it. -/
def insert (tree : FileTree) (place : Location) (node : FileNode) : FileTree :=
  ((placesAbove place).foldl (fun tree upper => tree.put upper .directory) tree).put place node

/-- The tree without what stands at a place or below it. -/
def remove (tree : FileTree) (place : Location) : FileTree :=
  { tree with nodes := tree.nodes.filter fun other _ => !place.isPrefixOf other }

end DatasetAudit.FileTree
