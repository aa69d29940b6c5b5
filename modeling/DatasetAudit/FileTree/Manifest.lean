import DatasetAudit.Decimal.Reading
import DatasetAudit.FileTree.Change
/-!
Lists of files, and what is needed to take a file tree from a list and to carry changes of the tree
back. A list has one line per file or directory: its time in nanoseconds since 1970, a blank, and
its path.
-/

namespace DatasetAudit

namespace FileTree

/-- The place that a path names, by its text alone: directories on the way need not be there. -/
def placeNamed (tree : FileTree) (path : String) : Location :=
  let base : Path := ⟨true, tree.base.map .name⟩
  (base.join (Path.ofString path)).normalParts.map PathPart.text

/-- What stands in a tree and did not stand in it before, or differs from what stood there. -/
def changesSince (tree before : FileTree) : List (Location × FileNode) :=
  tree.nodes.toList.filter fun (place, node) => before.node? place != some node

/-- An empty tree but for the directory of a path, from which relative paths start. -/
def ofBase (path : String) : FileTree :=
  let base := (FileTree.placeNamed {} path)
  FileTree.insert { base } base .directory

end FileTree

/-- The absolute path of a place. -/
def Location.path (place : Location) : String :=
  "/" ++ "/".intercalate place

/-- A line of a list. -/
structure ManifestLine where
  mtimeNs : Nat
  path : String
deriving DecidableEq, Repr

namespace ManifestLine

/-- Reads a line. -/
def ofText? (text : String) : Option ManifestLine :=
  match text.toList.dropWhile (· != ' ') with
  | ' ' :: path =>
    (Decimal.count? (text.toList.takeWhile (· != ' '))).map (⟨·, String.ofList path⟩)
  | _ => none

end ManifestLine

end DatasetAudit
