import Mathlib

/-! Items weighed and counted key by key. If no key is looked at twice, the sums over the keys add
up to the sum over all items that have one of them. -/

namespace DatasetAudit

variable {α κ : Type} [DecidableEq κ] {key : α → κ} {keys : List κ}

theorem sum_ite_eq (hKeys : keys.Nodup) (k : κ) (weight : Nat) :
    (keys.map fun other => if k = other then weight else 0).sum = if k ∈ keys then weight else 0 := by
  induction keys with
  | nil => rfl
  | cons first rest ih =>
      obtain ⟨hNew, hRest⟩ := List.nodup_cons.mp hKeys
      rw [List.map_cons, List.sum_cons, ih hRest]
      by_cases hFirst : k = first
      · simp [hFirst, hNew]
      · simp [hFirst]

/-- Weights added up key by key are the weights of the items that have one of the keys. -/
theorem sum_sum_filter (hKeys : keys.Nodup) (items : List α) (weight : α → Nat) :
    (keys.map fun k => ((items.filter fun item => key item = k).map weight).sum).sum =
      ((items.filter fun item => key item ∈ keys).map weight).sum := by
  induction items with
  | nil => simp
  | cons item rest ih =>
      have hItem (P : α → Prop) [DecidablePred P] :
          (((item :: rest).filter fun item => P item).map weight).sum =
            (if P item then weight item else 0) + ((rest.filter fun item => P item).map weight).sum := by
        by_cases hP : P item <;> simp [hP]
      simp only [hItem, List.sum_map_add, sum_ite_eq hKeys, ih]

theorem sum_countP (hKeys : keys.Nodup) (items : List α) :
    (keys.map fun k => items.countP fun item => key item = k).sum =
      items.countP fun item => key item ∈ keys := by
  have hCount (p : α → Bool) : items.countP p = ((items.filter p).map fun _ => 1).sum := by
    simp [List.countP_eq_length_filter]
  simp only [hCount, sum_sum_filter hKeys]

/-- Items counted key by key are all items, if every key that occurs is counted. -/
theorem sum_countP_eq_length (hKeys : keys.Nodup) {items : List α}
    (hItems : ∀ item ∈ items, key item ∈ keys) :
    (keys.map fun k => items.countP fun item => key item = k).sum = items.length := by
  rw [sum_countP hKeys, List.countP_eq_length]
  simpa using hItems

end DatasetAudit
