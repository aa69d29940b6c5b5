import DatasetAudit.Decimal.Reading
import DatasetAudit.Text.Blank
/-!
Label files: one annotation to a line, a class id followed by a box of four numbers or by the
corners of a polygon. A line that cannot be read is kept as an error beside the rows.
-/

namespace DatasetAudit

/-- A box in relative coordinates, by its centre and its size. -/
structure Box where
  xCenter : Float
  yCenter : Float
  width : Float
  height : Float

/-- One annotation. A polygon keeps its corners; its box is the one that encloses them. -/
structure AnnotationRow where
  line : UInt32
  classId : Int64
  box : Box
  polygon : Option (List Float)

namespace AnnotationRow

/-- The relative coordinates that a row gives: the corners of a polygon, or the four numbers of a
box. -/
def values (row : AnnotationRow) : List Float :=
  row.polygon.getD [row.box.xCenter, row.box.yCenter, row.box.width, row.box.height]

/-- The word for the shape of a row. -/
def kind (row : AnnotationRow) : String :=
  if row.polygon.isSome then "segment" else "bbox"

end AnnotationRow

/-- A line of a label file that is no annotation, and why. -/
structure RowError where
  line : UInt32
  raw : String
  reason : String
deriving DecidableEq, Repr

/-- What is known about the labels of an image. -/
inductive LabelState where
  /-- There is no label file. -/
  | missing
  /-- The label file was read. -/
  | parsed (rows : List AnnotationRow) (errors : List RowError)
  /-- There is a label file, but it could not be read. -/
  | unreadable (reason : String)

namespace LabelState

/-- The rows that were read. -/
def rows : LabelState → List AnnotationRow
  | .parsed rows _ => rows
  | _ => []

/-- The lines that could not be read. -/
def errors : LabelState → List RowError
  | .parsed _ errors => errors
  | _ => []

/-- Whether there is no label file. -/
def isMissing : LabelState → Bool
  | .missing => true
  | _ => false

end LabelState

namespace Labels

/-- Why a line is no annotation. -/
inductive RowFault where
  | tokenCount
  | nonNumeric
deriving DecidableEq, Repr

/-- The word for a fault in reports. -/
def RowFault.reason : RowFault → String
  | .tokenCount => "expected_5_tokens_or_valid_polygon"
  | .nonNumeric => "non_numeric"

/-- The least and the greatest of some numbers, a NaN passed over. Without a number they are the
two infinities. -/
def extent (values : List Float) : Float × Float :=
  values.foldl
    (fun (low, high) v => (if v < low then v else low, if high < v then v else high))
    (Binary64.infinity false, Binary64.infinity true)

/-- The first, third, fifth and so on of some numbers. -/
def evenPlaces : List Float → List Float
  | x :: _ :: rest => x :: evenPlaces rest
  | rest => rest

/-- The box that encloses the corners of a polygon, given as `x` and `y` in turn. -/
def enclosingBox (corners : List Float) : Box :=
  let (xMin, xMax) := extent (evenPlaces corners)
  let (yMin, yMax) := extent (evenPlaces (corners.drop 1))
  { xCenter := (xMin + xMax) / 2
    yCenter := (yMin + yMax) / 2
    width := xMax - xMin
    height := yMax - yMin }

/-- Whether a line has the words of a box: a class and four numbers. -/
def isBoxCount (count : Nat) : Bool :=
  count == 5

/-- Whether a line has the words of a polygon: a class and at least three corners. -/
def isPolygonCount (count : Nat) : Bool :=
  7 ≤ count && count % 2 == 1

/-- The annotation that the words of a line make. -/
def readRow (line : UInt32) (words : List (List Char)) : Except RowFault AnnotationRow :=
  if !isBoxCount words.length && !isPolygonCount words.length then .error .tokenCount
  else
    match words with
    | [] => .error .tokenCount
    | first :: rest =>
      match Decimal.int64? first, rest.mapM Decimal.float? with
      | some classId, some values =>
        match values with
        | [x, y, width, height] => .ok ⟨line, classId, ⟨x, y, width, height⟩, none⟩
        | corners => .ok ⟨line, classId, enclosingBox corners, some corners⟩
      | _, _ => .error .nonNumeric

/-- What one line of a label file holds: nothing, an annotation or an error. -/
def readLine (line : UInt32) (raw : List Char) : Option (Except RowError AnnotationRow) :=
  match Text.words raw with
  | [] => none
  | words =>
    match readRow line words with
    | .ok row => some (.ok row)
    | .error fault => some (.error ⟨line, String.ofList raw, fault.reason⟩)

/-- What the lines of a label file hold, the first line having number one. -/
def readLines (text : List Char) : List (Except RowError AnnotationRow) :=
  (Text.lines text).zipIdx.filterMap fun (raw, position) =>
    readLine (UInt32.ofNat (position + 1)) raw

/-- The annotation, if there is one. -/
def row? : Except RowError AnnotationRow → Option AnnotationRow
  | .ok row => some row
  | .error _ => none

/-- The error, if there is one. -/
def error? : Except RowError AnnotationRow → Option RowError
  | .ok _ => none
  | .error error => some error

/-- The labels in the text of a label file. -/
def parse (text : String) : LabelState :=
  let outcomes := readLines text.toList
  .parsed (outcomes.filterMap row?) (outcomes.filterMap error?)

end Labels

end DatasetAudit
