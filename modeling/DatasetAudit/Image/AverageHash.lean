/-!
The average hash of a picture shrunk to eight by eight shades of grey, and the distance between
hashes. Pictures that look alike have hashes that differ in few bits.
-/

namespace DatasetAudit

/-- A picture of eight by eight shades of grey, row by row. -/
abbrev Grid := Vector UInt8 64

namespace Grid

/-- The sum of all shades. -/
def sum (grid : Grid) : UInt32 :=
  grid.toList.foldl (fun sum shade => sum + shade.toUInt32) 0

/-- The mean of all shades. -/
def mean (grid : Grid) : Float :=
  grid.sum.toFloat / 64

/-- Whether a shade is at or above the mean of the picture. -/
def isBright (grid : Grid) (shade : UInt8) : Bool :=
  grid.mean ≤ shade.toFloat

/-- One bit for each shade, the first in the highest place: whether it is at or above the mean. -/
def averageHash (grid : Grid) : UInt64 :=
  grid.toList.foldl (fun bits shade => (bits <<< 1) ||| (grid.isBright shade).toUInt64) 0

end Grid

/-- The number of bits that are set. -/
def bitCount (x : UInt64) : Nat :=
  (List.range 64).countP fun i => x.toBitVec.getLsbD i

/-- The number of bits in which two hashes differ. -/
def hamming (a b : UInt64) : Nat :=
  bitCount (a ^^^ b)

end DatasetAudit
