import DatasetAudit.FileTree.Basic
import DatasetAudit.Labels
import DatasetAudit.Layout
import Std.Data.TreeMap
import Std.Data.TreeSet
/-!
A dataset as it lies in a file tree: the images of every split, each with the label file that has
its name, and the label files that belong to no image. A directory of images has to be there; one
of labels need not. Their names have to be given; a label file that cannot be read stops nothing.
-/

namespace DatasetAudit

/-- An image of a dataset, where it is, and its labels. -/
structure SourceRecord where
  split : Split
  image : String
  imagePath : Path
  label : Option String
  labels : LabelState

/-- One split of a dataset. -/
structure SplitSource where
  split : Split
  imagesDir : Path
  labelsDir : Path
  records : List SourceRecord
  orphanLabels : List String

/-- A dataset that has been read. -/
structure Source where
  root : Path
  dataYaml : Option String
  classNames : List String
  splits : List SplitSource

namespace Source

/-- The images of all splits. -/
def records (source : Source) : List SourceRecord :=
  source.splits.flatMap (·.records)

end Source

namespace Scan

/-- The extensions of images. -/
def imageExtensions : List String := ["jpg", "jpeg", "png", "bmp", "webp"]

/-- The extensions of label files. -/
def labelExtensions : List String := ["txt"]

/-- Whether the name of a file has one of some extensions, in any mix of cases. -/
def hasExtension (allowed : List String) (file : Location) : Bool :=
  (file.getLast?.bind Path.extension?).any fun extension =>
    allowed.contains (Text.lowerAscii extension)

/-- A file below a directory. -/
def fileIn (directory : Path) (file : Location) : Path :=
  ⟨directory.absolute, directory.parts ++ file.map .name⟩

/-- What an image and its label file have in common: their way below their directories, without
the extension. -/
def stem (file : Location) : List PathPart :=
  Path.withoutExtension (file.map .name)

/-- The files with one of some extensions below a directory. A directory on the way that is closed
stops the walk, whatever lies behind it. -/
def listFiles (tree : FileTree) (directory : Path) (extensions : List String) :
    Except AuditError (List Location) :=
  match tree.find directory.text with
  | .ok (place, .directory) =>
    match tree.filesBelow place with
    | .ok files => .ok (files.filter (hasExtension extensions))
    | .error (stop, error) =>
      let path := (fileIn directory stop).text
      .error (.dataAccess path (.walk path error))
  | _ => .error (.dataAccess directory.text .noSuchDirectory)

/-- The label files below a directory by stem. Of files with one stem the last counts. -/
def labelTable (files : List Location) : Std.TreeMap (List PathPart) Location :=
  files.foldl (fun table file => table.insert (stem file) file) ∅

/-- The label files below a directory, none if there is no such directory. -/
def listLabels (tree : FileTree) (directory : Path) : Except AuditError (List Location) :=
  if tree.isDirectory directory.text then listFiles tree directory labelExtensions else .ok []

/-- The labels in a file. -/
def readLabels (tree : FileTree) (path : Path) : LabelState :=
  match tree.read path.text with
  | .ok bytes => Labels.parse (Utf8.decodeLossy bytes)
  | .error error =>
    .unreadable s!"read_error:failed to read label: {path.text}: {error.message}"

/-- The record of an image. -/
def record (tree : FileTree) (root : Path) (layout : SplitLayout)
    (table : Std.TreeMap (List PathPart) Location) (image : Location) : SourceRecord :=
  let imagePath := fileIn layout.imagesDir image
  let labelPath := table[stem image]?.map (fileIn layout.labelsDir)
  { split := layout.split, imagePath
    image := root.relativeText imagePath
    label := labelPath.map root.relativeText
    labels := labelPath.elim .missing (readLabels tree) }

/-- The label files whose stems no image has, in the order of stems. -/
def orphans (table : Std.TreeMap (List PathPart) Location) (images : List Location) :
    List Location :=
  let stems := Std.TreeSet.ofList (images.map stem)
  (table.toList.filter fun (stem, _) => !stems.contains stem).map (·.2)

/-- One split of a dataset. -/
def split (tree : FileTree) (root : Path) (layout : SplitLayout) :
    Except AuditError SplitSource := do
  let images ← listFiles tree layout.imagesDir imageExtensions
  let table := labelTable (← listLabels tree layout.labelsDir)
  .ok
    { split := layout.split, imagesDir := layout.imagesDir, labelsDir := layout.labelsDir
      records := images.map (record tree root layout table)
      orphanLabels := (orphans table images).map fun file =>
        root.relativeText (fileIn layout.labelsDir file) }

end Scan

/-- The dataset that a layout describes. -/
def scan (tree : FileTree) (layout : Layout) : Except AuditError Source :=
  match tree.openDirectory layout.root.text with
  | .error error => .error (.dataAccess layout.root.text error)
  | .ok _ => do
    let splits ← layout.splits.mapM (Scan.split tree layout.root)
    .ok { root := layout.root, dataYaml := some layout.dataYaml, classNames := layout.classNames,
          splits }

end DatasetAudit
