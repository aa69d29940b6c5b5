/-!
How many annotations each class has, and how far two such histograms lie apart.
-/

namespace DatasetAudit

/-- The number of annotations of each class, by class id from zero. -/
structure ClassHistogram where
  counts : List UInt64
deriving DecidableEq, Repr

namespace ClassHistogram

/-- The histogram of a number of classes that has counted nothing yet. -/
def empty (classCount : Nat) : ClassHistogram :=
  ⟨List.replicate classCount 0⟩

/-- Counts one more annotation. An id that is no class is not counted. -/
def add (h : ClassHistogram) (classId : Int64) : ClassHistogram :=
  let id := classId.toInt
  if 0 ≤ id then ⟨h.counts.modify id.toNat (· + 1)⟩ else h

/-- The number of annotations. -/
def total (h : ClassHistogram) : UInt64 :=
  h.counts.foldl (· + ·) 0

/-- Whether there is no annotation. -/
def isEmpty (h : ClassHistogram) : Bool :=
  h.total == 0

/-- The part of all annotations that each class has; zero for each if there is none. -/
def shares (h : ClassHistogram) : List Float :=
  let total := h.total
  if total == 0 then h.counts.map fun _ => 0
  else h.counts.map fun count => count.toFloat / total.toFloat

/-- The class with the most annotations, the first of them, and its part of all. -/
def dominant? (h : ClassHistogram) : Option (Nat × Float) :=
  let total := h.total
  if total == 0 then none
  else
    let (id, count) := h.counts.zipIdx.foldl
      (fun (best : Nat × UInt64) (count, id) => if best.2 < count then (id, count) else best) (0, 0)
    some (id, count.toFloat / total.toFloat)

/-- The classes with fewer annotations than a limit, by class id. -/
def lowSupport (h : ClassHistogram) (limit : UInt64) : List (Nat × UInt64) :=
  (h.counts.zipIdx.filter fun (count, _) => count < limit).map fun (count, id) => (id, count)

end ClassHistogram

/-- The relative entropy of `a` with respect to `b` in bits, over the places where both are
positive. -/
def relativeEntropy (a b : List Float) : Float :=
  (((a.zip b).filter fun (x, y) => 0 < x && 0 < y).map fun (x, y) => x * Float.log2 (x / y)).foldl
    (· + ·) 0

/-- A list filled up with zeros to a length. -/
def padTo (length : Nat) (values : List Float) : List Float :=
  values ++ List.replicate (length - values.length) 0

/-- A number held within zero and one. -/
def clampUnit (x : Float) : Float :=
  if x < 0 then 0 else if 1 < x then 1 else x

/-- The Jensen-Shannon divergence of two histograms in bits, classes that one of them lacks
counted as zero there; none if one of them is empty. -/
def jensenShannon? (p q : ClassHistogram) : Option Float :=
  if p.isEmpty || q.isEmpty then none
  else
    let width := max p.counts.length q.counts.length
    let ps := padTo width p.shares
    let qs := padTo width q.shares
    let middle := (ps.zip qs).map fun (a, b) => (a + b) / 2
    some (clampUnit (0.5 * relativeEntropy ps middle + 0.5 * relativeEntropy qs middle))

end DatasetAudit
