import DatasetAudit.Finding.Basic
import DatasetAudit.Index.Entry
/-!
Findings about one image.
-/

namespace DatasetAudit

/-- A finding with the split, the image and the label file of an entry. -/
def Finding.about (entry : IndexEntry) (finding : Finding) : Finding :=
  { finding with split := some entry.split, image := some entry.image, label := entry.label }

/-- A finding with the class of a row, unless that is a negative number. -/
def Finding.ofClass (row : AnnotationRow) (finding : Finding) : Finding :=
  if 0 ≤ row.classId then { finding with classId := some row.classId } else finding

/-- The texts that stand for an entry in fingerprints. -/
def IndexEntry.fingerprintParts (entry : IndexEntry) : List String :=
  [entry.split.name, entry.image]

/-- The number of a line as text. -/
def lineText (line : UInt32) : String :=
  toString line.toNat

end DatasetAudit
