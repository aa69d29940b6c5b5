import DatasetAudit.Error
import DatasetAudit.Path
import DatasetAudit.Yaml.Value
/-!
The layout of a dataset as its `data.yaml` describes it: the root, the names of the classes, and
the directories of the splits. Paths are worked out as text; no file is touched.
-/

namespace DatasetAudit

/-- The directories of one split. -/
structure SplitLayout where
  split : Split
  imagesDir : Path
  labelsDir : Path
deriving DecidableEq, Repr

/-- Where a dataset lives and what its classes are called. -/
structure Layout where
  dataYaml : String
  root : Path
  classNames : List String
  splits : List SplitLayout
deriving DecidableEq, Repr

namespace Layout

open Yaml (Value)

/-- The directory that relative paths in a description start from. -/
def baseDir (dataYaml : Path) : Path :=
  match dataYaml.parent? with
  | some parent => if parent.absolute || !parent.parts.isEmpty then parent else ⟨false, [.current]⟩
  | none => ⟨false, [.current]⟩

/-- The normal form of a path given relative to a directory. -/
def resolve (base : Path) (hint : String) : Path :=
  (base.join (Path.ofString hint)).normalize

/-- The labels of images lie in the directory `labels` beside theirs. -/
def labelsDirFor (imagesDir : Path) : Path :=
  match imagesDir.parent? with
  | some parent => parent.push "labels"
  | none => ⟨false, [.name "labels"]⟩

/-- The names in a list. -/
def namesOfList (items : List Value) : Except LayoutFault (List String) :=
  items.mapM fun item =>
    match item with
    | .string name => .ok name
    | _ => .error .nameEntries

/-- The number that a key of the names stands for: a number that is not negative, or its text. -/
def nameIndex? : Value → Option Nat
  | .integer n => if 0 ≤ n then some n.toNat else none
  | .string text => Decimal.count? text.toList
  | _ => none

/-- The names in a mapping, in the order of their numbers. -/
def namesOfMapping (members : List (Value × Value)) : Except LayoutFault (List String) := do
  let indexed ← members.mapM fun (key, value) =>
    match nameIndex? key, value with
    | none, _ => .error LayoutFault.nameKeys
    | some index, .string name => .ok (index, name)
    | some _, _ => .error .nameValues
  .ok ((indexed.mergeSort fun a b => a.1 ≤ b.1).map (·.2))

/-- The names of the classes. -/
def readNames (names : Option Value) : Except LayoutFault (List String) :=
  match names with
  | some (.sequence items) => namesOfList items
  | some (.mapping members) => namesOfMapping members
  | _ => .error .names

/-- The directories of a split, if the description has it. -/
def splitLayout (members : List (Value × Value)) (root : Path) (split : Split) :
    Except LayoutFault (Option SplitLayout) :=
  match Value.lookup? split.name members with
  | none | some .null => .ok none
  | some (.string dir) =>
    let imagesDir := resolve root dir
    .ok (some { split, imagesDir, labelsDir := labelsDirFor imagesDir })
  | some _ => .error (.split split)

/-- The splits that are wanted, in order: all of them if none is asked for. -/
def wantedSplits (requested : List Split) : List Split :=
  Split.all.filter fun split => requested.isEmpty || requested.contains split

/-- The layout that a description gives. Requested splits that it does not have are passed over,
but one has to remain. -/
def ofValue (dataYaml : String) (requested : List Split) (value : Value) :
    Except LayoutFault Layout :=
  match value with
  | .null => .error .empty
  | .mapping members => do
    let base := baseDir (Path.ofString dataYaml)
    let root ←
      match Value.lookup? "path" members with
      | none => .ok base.normalize
      | some (.string hint) => .ok (resolve base hint)
      | some _ => .error .path
    let classNames ← readNames (Value.lookup? "names" members)
    let splits ← (wantedSplits requested).filterMapM (splitLayout members root)
    if splits.isEmpty then .error .noSplits else .ok { dataYaml, root, classNames, splits }
  | _ => .error .notMapping

/-- The layout that the text of a `data.yaml` gives. -/
def parse (dataYaml text : String) (requested : List Split) : Except LayoutFault Layout :=
  match Value.ofText? text with
  | none => .error .malformed
  | some value => ofValue dataYaml requested value

end Layout

end DatasetAudit
