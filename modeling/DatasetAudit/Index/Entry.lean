import DatasetAudit.Labels
import DatasetAudit.Split
/-!
The facts about one image of a dataset, and the key that it is found by.
-/

namespace DatasetAudit

/-- What an image is found by: its split and its path below the root. -/
structure ImageKey where
  split : Split
  image : String
deriving DecidableEq, Repr

namespace ImageKey

/-- Images are ordered by split and then by path. -/
def order : ImageKey → ImageKey → Ordering :=
  compareLex (compareOn split) (compareOn image)

instance : Ord ImageKey := ⟨order⟩

instance : Std.TransOrd ImageKey :=
  inferInstanceAs (Std.TransCmp (compareLex (compareOn split) (compareOn image)))

instance : Std.LawfulEqOrd ImageKey where
  eq_of_compare {a b} h := by
    have h : (compareLex (compareOn split) (compareOn image)) a b = .eq := h
    obtain ⟨hs, hi⟩ := Ordering.then_eq_eq.mp h
    cases a
    cases b
    simp_all [compareOn]

/-- The split and the path, with a colon between. -/
def text (key : ImageKey) : String :=
  key.split.name ++ ":" ++ key.image

end ImageKey

/-- What is known about one image. -/
structure IndexEntry where
  split : Split
  image : String
  label : Option String := none
  sizeBytes : UInt64
  mtimeNs : Int64
  /-- The digest of the file's bytes; none if the file could not be read. -/
  contentHash : Option String := none
  perceptualHash : Option UInt64 := none
  width : Option UInt32 := none
  height : Option UInt32 := none
  imageError : Option String := none
  labels : LabelState

namespace IndexEntry

/-- What the entry is found by. -/
def key (entry : IndexEntry) : ImageKey :=
  ⟨entry.split, entry.image⟩

/-- The text that stands for the entry in fingerprints. -/
def identity (entry : IndexEntry) : String :=
  entry.key.text

end IndexEntry

end DatasetAudit
