import Std.Data.TreeMap
/-!
Lists sorted into groups of equal keys, and lists in which every run of equal keys is cut down to
its first item.
-/

namespace DatasetAudit

variable {α κ : Type}

/-- The items of each key in the order of the list, the keys in ascending order. -/
def groupByKey [Ord κ] (key : α → κ) (items : List α) : List (κ × List α) :=
  let groups : Std.TreeMap κ (List α) := items.foldr
    (fun item groups => groups.alter (key item) fun group => some (item :: group.getD [])) ∅
  groups.toList

/-- The first item of every run of items with equal keys. -/
def firstOfRuns [DecidableEq κ] (key : α → κ) : List α → List α
  | [] => []
  | item :: rest => item :: firstOfRuns key (rest.dropWhile fun other => key other = key item)
termination_by items => items.length
decreasing_by
  exact Nat.lt_succ_of_le (List.dropWhile_suffix _).length_le

/-- Items in ascending order of their keys, those with equal keys left as they stand. -/
def sortByKey [Ord κ] (key : α → κ) (items : List α) : List α :=
  items.mergeSort fun a b => (compare (key a) (key b)).isLE

end DatasetAudit
