import DatasetAudit.Grouping
import Mathlib.Data.List.Basic

/-! Sorting and grouping by keys. Sorting keeps the items and puts their keys in order; with
distinct keys the order is strict and removing runs changes nothing. Grouping gives every key that
occurs the items that have it, in their own order. -/

namespace DatasetAudit

variable {α κ : Type} {key : α → κ} {items : List α}

theorem key_eq_of_mem_filter [DecidableEq κ] {k : κ} {item : α}
    (h : item ∈ items.filter fun other => key other = k) : key item = k :=
  of_decide_eq_true (List.mem_filter.mp h).2

theorem two_le_length_of_ne {a b : α} (ha : a ∈ items) (hb : b ∈ items) (hNe : a ≠ b) :
    2 ≤ items.length := by
  match items with
  | [] => cases ha
  | [_] => simp_all
  | _ :: _ :: _ => simp

/-- Distinct keys leave no run of two items, so the first items of runs are all items. -/
theorem firstOfRuns_eq_self [DecidableEq κ] (hKeys : (items.map key).Nodup) :
    firstOfRuns key items = items := by
  induction items with
  | nil => rw [firstOfRuns]
  | cons item rest ih =>
      rw [List.map_cons, List.nodup_cons] at hKeys
      rw [firstOfRuns]
      have hKeep : rest.dropWhile (fun other => key other = key item) = rest := by
        cases rest with
        | nil => rfl
        | cons other more =>
            have hOther : key other ≠ key item := by
              intro he
              exact hKeys.1 (by simp [he])
            simp [hOther]
      rw [hKeep, ih hKeys.2]

theorem firstOfRuns_sublist [DecidableEq κ] (key : α → κ) (items : List α) :
    (firstOfRuns key items).Sublist items := by
  fun_induction firstOfRuns key items with
  | case1 => exact .slnil
  | case2 item rest ih => exact (ih.trans (List.dropWhile_sublist _)).cons_cons item

/-- Every key has a first item. -/
theorem mem_map_firstOfRuns [DecidableEq κ] {k : κ} :
    k ∈ (firstOfRuns key items).map key ↔ k ∈ items.map key := by
  fun_induction firstOfRuns key items with
  | case1 => rfl
  | case2 item rest ih =>
      have hRun : ∀ other ∈ rest.takeWhile (fun other => key other = key item),
          key other = key item := fun other hOther =>
        of_decide_eq_true (List.all_eq_true.mp List.all_takeWhile other hOther)
      have hParts := List.takeWhile_append_dropWhile (p := fun other => key other = key item)
        (l := rest)
      rw [List.map_cons, List.mem_cons, ih, List.map_cons, List.mem_cons, ← hParts,
        List.map_append, List.mem_append, hParts]
      constructor
      · exact Or.imp_right .inr
      · rintro (hItem | hTaken | hLeft)
        · exact .inl hItem
        · obtain ⟨other, hOther, rfl⟩ := List.mem_map.mp hTaken
          exact .inl (hRun other hOther)
        · exact .inr hLeft

/-- Distinct keys leave each item alone with its key. -/
theorem filter_key_alone [DecidableEq κ] (hKeys : (items.map key).Nodup) (k : κ) :
    (items.filter fun item => key item = k).Pairwise fun _ _ => False := by
  rw [List.Nodup, List.pairwise_map] at hKeys
  apply (hKeys.filter _).imp_of_mem
  intro a b ha hb hNe
  exact hNe ((key_eq_of_mem_filter ha).trans (key_eq_of_mem_filter hb).symm)

theorem filter_key_eq_singleton [DecidableEq κ] (hKeys : (items.map key).Nodup) {item : α}
    (hItem : item ∈ items) : (items.filter fun other => key other = key item) = [item] := by
  have hAlone := filter_key_alone hKeys (key item)
  have hMem : item ∈ items.filter fun other => key other = key item :=
    List.mem_filter.mpr ⟨hItem, decide_eq_true rfl⟩
  generalize (items.filter fun other => key other = key item) = alone at hAlone hMem
  match alone with
  | [] => cases hMem
  | [_] => rw [List.mem_singleton.mp hMem]
  | _ :: _ :: _ => exact absurd (List.rel_of_pairwise_cons hAlone List.mem_cons_self) id

theorem filter_key_eq_of_perm [DecidableEq κ] {others : List α} (hKeys : (items.map key).Nodup)
    (hPerm : items.Perm others) (k : κ) :
    (items.filter fun item => key item = k) = others.filter fun item => key item = k := by
  apply (hPerm.filter _).eq_of_pairwise _ (filter_key_alone hKeys k)
    (filter_key_alone ((hPerm.map key).nodup_iff.mp hKeys) k)
  intro _ _ _ _ hFalse
  exact hFalse.elim

/-- Items that yield nothing may be left out. -/
theorem flatMap_filter_eq {β : Type} {p : α → Bool} {f : α → List β}
    (hNothing : ∀ item ∈ items, p item = false → f item = []) :
    (items.filter p).flatMap f = items.flatMap f := by
  induction items with
  | nil => rfl
  | cons item rest ih =>
      obtain ⟨hItem, hRest⟩ := List.forall_mem_cons.mp hNothing
      cases hp : p item with
      | true => rw [List.filter_cons_of_pos hp, List.flatMap_cons, List.flatMap_cons, ih hRest]
      | false => simp [hp, hItem hp, ih hRest]

/-- Items that yield one thing each, or nothing if they do not pass a test. -/
theorem flatMap_ite_eq_map {β : Type} (p : α → Bool) (f : α → β) (items : List α) :
    (items.flatMap fun item => if p item then [f item] else []) = (items.filter p).map f := by
  induction items with
  | nil => rfl
  | cons item rest ih =>
      rw [List.flatMap_cons, ih]
      cases hp : p item <;> simp [hp]

/-- An item that passes a test is kept with all that it yields, and another one is not. -/
theorem filter_flatMap_eq {β : Type} {p : β → Bool} {q : α → Bool} {f : α → List β}
    (h : ∀ item ∈ items, ∀ b ∈ f item, p b = q item) :
    (items.flatMap f).filter p = (items.filter q).flatMap f := by
  induction items with
  | nil => rfl
  | cons item rest ih =>
      obtain ⟨hItem, hRest⟩ := List.forall_mem_cons.mp h
      rw [List.flatMap_cons, List.filter_append, ih hRest, List.filter_congr hItem]
      cases hq : q item <;> simp [hq]

theorem filter_filterMap_eq {β : Type} {p : β → Bool} {q : α → Bool} {f : α → Option β}
    (h : ∀ item b, f item = some b → p b = q item) :
    (items.filterMap f).filter p = (items.filter q).filterMap f := by
  induction items with
  | nil => rfl
  | cons item rest ih =>
      cases hItem : f item with
      | none => cases hq : q item <;> simp [hItem, hq, ih]
      | some b =>
          have hSame := h item b hItem
          cases hq : q item <;> simp [hItem, hq, hSame, ih]

variable [Ord κ]

/-- The keys of the items rise from each item to every later one. -/
def Ascending (key : α → κ) (items : List α) : Prop :=
  items.Pairwise fun a b => compare (key a) (key b) = .lt

instance (key : α → κ) (items : List α) : Decidable (Ascending key items) :=
  inferInstanceAs (Decidable (items.Pairwise fun a b => compare (key a) (key b) = .lt))

theorem sortByKey_perm (key : α → κ) (items : List α) : (sortByKey key items).Perm items :=
  List.mergeSort_perm items _

theorem mem_sortByKey {item : α} : item ∈ sortByKey key items ↔ item ∈ items :=
  (sortByKey_perm key items).mem_iff

theorem length_firstOfRuns_sortByKey_le [DecidableEq κ] (key : α → κ) (items : List α) :
    (firstOfRuns key (sortByKey key items)).length ≤ items.length :=
  (sortByKey_perm key items).length_eq ▸ (firstOfRuns_sublist _ _).length_le

theorem sortByKey_eq_self (h : Ascending key items) : sortByKey key items = items :=
  List.mergeSort_of_pairwise (h.imp fun hLess => by simp [hLess])

section Ordered

variable [Std.TransOrd κ]

theorem sortByKey_pairwise (key : α → κ) (items : List α) :
    (sortByKey key items).Pairwise fun a b => (compare (key a) (key b)).isLE := by
  apply List.pairwise_mergeSort
  · intro a b c hab hbc
    exact Std.TransCmp.isLE_trans hab hbc
  · intro a b
    cases h : compare (key a) (key b) with
    | lt => simp
    | eq => simp
    | gt => simp [Std.OrientedCmp.lt_of_gt h]

/-- Rising keys are distinct. -/
theorem Ascending.nodup (h : Ascending key items) : (items.map key).Nodup := by
  rw [List.Nodup, List.pairwise_map]
  apply h.imp
  intro a b hLess he
  simp [he] at hLess

/-- Items with distinct keys come out of sorting with strictly rising keys. -/
theorem ascending_sortByKey [Std.LawfulEqOrd κ] (hKeys : (items.map key).Nodup) :
    Ascending key (sortByKey key items) := by
  have hNodup : ((sortByKey key items).map key).Nodup :=
    ((sortByKey_perm key items).map key).nodup_iff.mpr hKeys
  rw [List.Nodup, List.pairwise_map] at hNodup
  apply ((sortByKey_pairwise key items).and hNodup).imp
  rintro a b ⟨hLE, hNe⟩
  cases h : compare (key a) (key b) with
  | lt => rfl
  | eq => exact absurd (Std.LawfulEqCmp.eq_of_compare h) hNe
  | gt => simp [h] at hLE

/-- Behind the run of the first item of a sorted list, all keys are larger. -/
theorem lt_of_mem_dropWhile [Std.LawfulEqOrd κ] [DecidableEq κ] {item other : α} {rest : List α}
    (h : (item :: rest).Pairwise fun a b => (compare (key a) (key b)).isLE)
    (hOther : other ∈ rest.dropWhile fun next => key next = key item) :
    compare (key item) (key other) = .lt := by
  induction rest with
  | nil => cases hOther
  | cons next rest ih =>
      by_cases hSame : key next = key item
      · rw [List.dropWhile_cons_of_pos (by simpa using hSame)] at hOther
        exact ih (h.sublist ((List.sublist_cons_self next rest).cons_cons item)) hOther
      · rw [List.dropWhile_cons_of_neg (by simpa using hSame)] at hOther
        obtain ⟨hItem, hNext⟩ := List.pairwise_cons.mp h
        have hLess : compare (key item) (key next) = .lt := by
          cases hCompare : compare (key item) (key next) with
          | lt => rfl
          | eq => exact absurd (Std.LawfulEqCmp.eq_of_compare hCompare).symm hSame
          | gt => simpa [hCompare] using hItem next List.mem_cons_self
        rcases List.mem_cons.mp hOther with rfl | hRest
        · exact hLess
        · exact Std.TransCmp.lt_of_lt_of_isLE hLess (List.rel_of_pairwise_cons hNext hRest)

/-- The first items of the runs of a sorted list have strictly rising keys. -/
theorem ascending_firstOfRuns [Std.LawfulEqOrd κ] [DecidableEq κ]
    (h : items.Pairwise fun a b => (compare (key a) (key b)).isLE) :
    Ascending key (firstOfRuns key items) := by
  fun_induction firstOfRuns key items with
  | case1 => exact .nil
  | case2 item rest ih =>
      refine List.pairwise_cons.mpr ⟨?_, ih (h.of_cons.sublist (List.dropWhile_sublist _))⟩
      intro other hOther
      exact lt_of_mem_dropWhile h ((firstOfRuns_sublist key _).subset hOther)

/-- The run of the first item of a sorted list is all that has its key. -/
theorem dropWhile_key_eq_filter [Std.LawfulEqOrd κ] [DecidableEq κ] {item : α} {rest : List α}
    (h : (item :: rest).Pairwise fun a b => (compare (key a) (key b)).isLE) :
    (rest.dropWhile fun next => key next = key item) = rest.filter fun next => key next ≠ key item := by
  have hRun : ((rest.takeWhile fun next => key next = key item).filter fun next =>
      key next ≠ key item) = [] := by
    rw [List.filter_eq_nil_iff]
    intro next hNext
    simpa using List.all_eq_true.mp List.all_takeWhile next hNext
  have hBehind : ((rest.dropWhile fun next => key next = key item).filter fun next =>
      key next ≠ key item) = rest.dropWhile fun next => key next = key item := by
    rw [List.filter_eq_self]
    intro next hNext
    have hLess := lt_of_mem_dropWhile h hNext
    rw [decide_eq_true_iff]
    intro hSame
    simp [hSame] at hLess
  have hParts : (rest.takeWhile fun next => key next = key item) ++
      (rest.dropWhile fun next => key next = key item) = rest := List.takeWhile_append_dropWhile
  rw [← hParts, List.filter_append, hRun, List.nil_append, hBehind, hParts]

/-- The first items of the runs of a sorted list are found after leaving out all items of some keys,
too. -/
theorem firstOfRuns_filter [Std.LawfulEqOrd κ] [DecidableEq κ] {p : κ → Bool}
    (h : items.Pairwise fun a b => (compare (key a) (key b)).isLE) :
    firstOfRuns key (items.filter fun item => p (key item)) =
      (firstOfRuns key items).filter fun item => p (key item) := by
  fun_induction firstOfRuns key items with
  | case1 => rw [List.filter_nil, firstOfRuns]
  | case2 item rest ih =>
      have hSub : ((item :: rest).filter fun item => p (key item)).Pairwise fun a b =>
          (compare (key a) (key b)).isLE := h.filter _
      rw [dropWhile_key_eq_filter h] at ih
      have ih := ih (h.of_cons.filter _)
      rw [dropWhile_key_eq_filter h]
      cases hItem : p (key item) with
      | true =>
          rw [List.filter_cons, if_pos hItem] at hSub ⊢
          rw [List.filter_cons, if_pos hItem, firstOfRuns, dropWhile_key_eq_filter hSub,
            List.filter_comm, ih]
      | false =>
          have hRest : (rest.filter fun next => key next ≠ key item).filter (fun next => p (key next)) =
              rest.filter fun next => p (key next) := by
            rw [List.filter_filter]
            apply List.filter_congr
            intro next _
            by_cases hSame : key next = key item
            · simp [hSame, hItem]
            · simp [hSame]
          simp only [List.filter_cons, hItem, Bool.false_eq_true, if_false]
          rw [← ih, hRest]

/-- A strictly ascending list is fixed by its members. -/
theorem Ascending.eq_of_mem_iff [Std.LawfulEqOrd κ] {others : List α}
    (h : Ascending key items) (hOthers : Ascending key others)
    (hMem : ∀ item, item ∈ items ↔ item ∈ others) : items = others := by
  have hPerm : items.Perm others := by
    rw [List.perm_ext_iff_of_nodup]
    · exact hMem
    · exact h.imp (by rintro a b hLess rfl; simp at hLess)
    · exact hOthers.imp (by rintro a b hLess rfl; simp at hLess)
  apply hPerm.eq_of_pairwise _ h hOthers
  intro a b _ _ hab hba
  rw [Std.OrientedCmp.gt_of_lt hab] at hba
  cases hba

/-- Items with distinct keys are sorted in one way, whatever order they come in. -/
theorem sortByKey_eq_of_perm [Std.LawfulEqOrd κ] {others : List α} (hKeys : (items.map key).Nodup)
    (hPerm : items.Perm others) : sortByKey key items = sortByKey key others := by
  apply (ascending_sortByKey hKeys).eq_of_mem_iff
    (ascending_sortByKey ((hPerm.map key).nodup_iff.mp hKeys))
  intro item
  rw [mem_sortByKey, mem_sortByKey, hPerm.mem_iff]

section Groups

variable [Std.LawfulEqOrd κ] [DecidableEq κ]

/-- The table of groups holds for each key the items that have it, if there are any. -/
private theorem getElem?_groups (key : α → κ) (items : List α) (k : κ) :
    (items.foldr (fun item groups => groups.alter (key item) fun group =>
      some (item :: group.getD [])) (∅ : Std.TreeMap κ (List α)))[k]? =
      if items.filter (fun item => key item = k) = [] then none
      else some (items.filter fun item => key item = k) := by
  induction items with
  | nil => simp
  | cons item rest ih =>
      rw [List.foldr_cons, Std.TreeMap.getElem?_alter]
      by_cases h : key item = k
      · subst h
        rw [if_pos Std.ReflCmp.compare_self, ih]
        split <;> simp_all
      · have hCompare : compare (key item) k ≠ .eq := fun he => h (Std.LawfulEqCmp.eq_of_compare he)
        rw [if_neg hCompare, ih]
        simp [h]

/-- A key that occurs is grouped with exactly the items that have it. -/
theorem mem_groupByKey {k : κ} {group : List α} :
    (k, group) ∈ groupByKey key items ↔
      group = items.filter (fun item => key item = k) ∧ group ≠ [] := by
  rw [groupByKey, Std.TreeMap.mem_toList_iff_getElem?_eq_some, getElem?_groups]
  split
  · rename_i h
    constructor
    · intro hNone
      cases hNone
    · rintro ⟨rfl, hSome⟩
      exact absurd h hSome
  · rename_i h
    constructor
    · rintro ⟨⟩
      exact ⟨rfl, h⟩
    · rintro ⟨rfl, _⟩
      rfl

omit [Std.LawfulEqOrd κ] [DecidableEq κ] in
theorem groupByKey_ascending (key : α → κ) (items : List α) :
    Ascending (·.1) (groupByKey key items) :=
  Std.TreeMap.ordered_keys_toList

end Groups

end Ordered

end DatasetAudit
