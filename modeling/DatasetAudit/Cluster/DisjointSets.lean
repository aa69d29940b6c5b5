/-!
Disjoint sets of the numbers below a bound. Every set has a root to which the parents of its
elements lead, and every root knows how many elements its set has.
-/

namespace DatasetAudit

/-- Disjoint sets: the parent of each element, a root being its own, and the size of each root's
set. -/
structure DisjointSets where
  parent : Array Nat
  size : Array Nat
deriving Repr

namespace DisjointSets

/-- Every number below a bound in a set of its own. -/
def singletons (n : Nat) : DisjointSets :=
  ⟨Array.range n, Array.replicate n 1⟩

/-- Follows parents from an element to its root. Each element passed on the way is given its
grandparent as parent, and the walk goes on there; it takes at most as many steps as there are
elements. -/
def climb : Nat → Array Nat → Nat → Nat × Array Nat
  | 0, parent, x => (x, parent)
  | steps + 1, parent, x =>
    let up := parent.getD x x
    if up = x then (x, parent)
    else
      let next := parent.getD up up
      climb steps (parent.setIfInBounds x next) next

/-- The root of an element's set, and the sets with the way to it made shorter. -/
def find (sets : DisjointSets) (x : Nat) : Nat × DisjointSets :=
  let (root, parent) := climb sets.parent.size sets.parent x
  (root, { sets with parent })

/-- Joins the sets of two elements; the root of the larger one stays, and of the first if they are
equally large. -/
def union (sets : DisjointSets) (a b : Nat) : DisjointSets :=
  let (rootA, sets) := sets.find a
  let (rootB, sets) := sets.find b
  if rootA = rootB then sets
  else
    let sizeA := sets.size.getD rootA 0
    let sizeB := sets.size.getD rootB 0
    let (big, small) := if sizeB ≤ sizeA then (rootA, rootB) else (rootB, rootA)
    { parent := sets.parent.setIfInBounds small big
      size := sets.size.setIfInBounds big (sizeA + sizeB) }

end DisjointSets

end DatasetAudit
