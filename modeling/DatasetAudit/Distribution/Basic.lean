import DatasetAudit.Distribution.Histogram
import DatasetAudit.Index.Basic
/-!
How the annotations of an indexed dataset spread over its classes, in all and in each split.
-/

namespace DatasetAudit

/-- The histogram of the annotations of some entries. -/
def histogramOf (classCount : Nat) (entries : List IndexEntry) : ClassHistogram :=
  (entries.flatMap fun entry => entry.labels.rows).foldl (fun h row => h.add row.classId)
    (ClassHistogram.empty classCount)

/-- The histogram of a dataset and those of its splits. -/
structure Distribution where
  total : ClassHistogram
  perSplit : List (Split × ClassHistogram)

namespace Distribution

/-- The distribution of an indexed dataset. A split has a histogram if it has an entry. -/
def ofIndex (index : Index) : Distribution where
  total := histogramOf index.classCount index.entries
  perSplit := Split.all.filterMap fun split =>
    let entries := index.entriesIn split
    if entries.isEmpty then none else some (split, histogramOf index.classCount entries)

/-- The histogram of a split. -/
def split? (d : Distribution) (split : Split) : Option ClassHistogram :=
  d.perSplit.lookup split

/-- How far a split lies from the training split; none if one of them has no annotations. -/
def driftFromTrain? (d : Distribution) (target : Split) : Option Float := do
  let train ← d.split? .train
  let other ← d.split? target
  jensenShannon? train other

end Distribution

end DatasetAudit
