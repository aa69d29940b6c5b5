import DatasetAudit.Proofs.Grouping

/-! Stable sorting by a comparison. Items that tie keep their order, so a sorted list is fixed by
what it holds of each class of ties; in whatever order the classes come, the sort is the same. -/

namespace DatasetAudit

variable {α : Type}

/-- For every item the two lists hold the same items that tie with it, in the same order. -/
def SameTies (cmp : α → α → Ordering) (items others : List α) : Prop :=
  ∀ a, (items.filter fun b => cmp a b = .eq) = others.filter fun b => cmp a b = .eq

namespace SameTies

variable {cmp : α → α → Ordering} {items others : List α}

theorem refl (items : List α) : SameTies cmp items items := fun _ => rfl

theorem append {more more' : List α} (h : SameTies cmp items others)
    (hMore : SameTies cmp more more') : SameTies cmp (items ++ more) (others ++ more') := by
  intro a
  rw [List.filter_append, List.filter_append, h a, hMore a]

/-- Blocks of items may come in any order, if only items of one block tie. -/
theorem flatMap_of_perm {β κ : Type} [DecidableEq κ] {key : β → κ} {blocks others : List β}
    {f : β → List α} (hKeys : (blocks.map key).Nodup) (hPerm : blocks.Perm others)
    (hTies : ∀ x ∈ blocks, ∀ y ∈ blocks, ∀ a, ∀ b ∈ f x, ∀ c ∈ f y,
      cmp a b = .eq → cmp a c = .eq → key x = key y) :
    SameTies cmp (blocks.flatMap f) (others.flatMap f) := by
  intro a
  rw [List.filter_flatMap, List.filter_flatMap]
  by_cases hSome : ∃ x ∈ blocks, (f x).filter (fun b => cmp a b = .eq) ≠ []
  · obtain ⟨x, hx, hNe⟩ := hSome
    obtain ⟨b, hb⟩ := List.exists_mem_of_ne_nil _ hNe
    obtain ⟨hMemB, hTieB⟩ := List.mem_filter.mp hb
    -- All items that tie with `a` lie in the block of `b`.
    have hOther (y : β) (hy : y ∈ blocks) (hKey : decide (key y = key x) = false) :
        (f y).filter (fun c => cmp a c = .eq) = [] := by
      rw [List.filter_eq_nil_iff]
      intro c hc hTie
      exact of_decide_eq_false hKey
        (hTies y hy x hx a c hc b hMemB (of_decide_eq_true hTie) (of_decide_eq_true hTieB))
    rw [← flatMap_filter_eq hOther, filter_key_eq_of_perm hKeys hPerm,
      flatMap_filter_eq fun y hy => hOther y (hPerm.mem_iff.mpr hy)]
  · have hNone (y : β) (hy : y ∈ blocks) : (f y).filter (fun b => cmp a b = .eq) = [] := by
      by_cases hNil : (f y).filter (fun b => cmp a b = .eq) = []
      · exact hNil
      · exact absurd ⟨y, hy, hNil⟩ hSome
    rw [List.flatMap_eq_nil_iff.mpr hNone,
      List.flatMap_eq_nil_iff.mpr fun y hy => hNone y (hPerm.mem_iff.mpr hy)]

section Sorted

variable [Std.TransCmp cmp]

omit [Std.TransCmp cmp] in
theorem mem_class [Std.ReflCmp cmp] (a : α) (items : List α) :
    a ∈ (a :: items).filter fun b => cmp a b = .eq :=
  List.mem_filter.mpr ⟨List.mem_cons_self, decide_eq_true Std.ReflCmp.compare_self⟩

/-- The first of a sorted list is not larger than any item of it. -/
theorem isLE_of_mem {a b : α} (hItems : (a :: items).Pairwise fun a b => (cmp a b).isLE)
    (hMem : b ∈ a :: items) : (cmp a b).isLE := by
  rcases List.mem_cons.mp hMem with rfl | hMem
  · exact Ordering.isLE_of_eq_eq Std.ReflCmp.compare_self
  · exact List.rel_of_pairwise_cons hItems hMem

/-- A sorted list is fixed by its classes of ties. -/
theorem eq_of_pairwise (h : SameTies cmp items others)
    (hItems : items.Pairwise fun a b => (cmp a b).isLE)
    (hOthers : others.Pairwise fun a b => (cmp a b).isLE) : items = others := by
  induction items generalizing others with
  | nil =>
      cases others with
      | nil => rfl
      | cons b rest => exact absurd (h b ▸ mem_class b rest) List.not_mem_nil
  | cons a items ih =>
      cases others with
      | nil => exact absurd (h a ▸ mem_class a items) List.not_mem_nil
      | cons b others =>
          have hMemB : b ∈ a :: items := (List.mem_filter.mp (h b ▸ mem_class b others)).1
          have hMemA : a ∈ b :: others := (List.mem_filter.mp (h a ▸ mem_class a items)).1
          -- Neither head is smaller, so both are the first of one class.
          have hTie : cmp a b = .eq := Std.OrientedCmp.isLE_antisymm
            (isLE_of_mem hItems hMemB) (isLE_of_mem hOthers hMemA)
          have hSelf : cmp a a = .eq := Std.ReflCmp.compare_self
          have hClass := h a
          simp only [List.filter_cons, hSelf, hTie, decide_true, ↓reduceIte] at hClass
          obtain ⟨rfl, _⟩ := List.cons.inj hClass
          have hRest : SameTies cmp items others := by
            intro c
            have hClass := h c
            by_cases hc : cmp c a = .eq
            · simp only [List.filter_cons, hc, decide_true, ↓reduceIte] at hClass
              exact (List.cons.inj hClass).2
            · simpa only [List.filter_cons, hc, decide_false, Bool.false_eq_true, ↓reduceIte]
                using hClass
          rw [ih hRest hItems.of_cons hOthers.of_cons]

theorem isLE_or_isLE {a b : α} : ((cmp a b).isLE || (cmp b a).isLE) = true := by
  cases h : cmp a b with
  | lt => rfl
  | eq => rfl
  | gt => simp [Std.OrientedCmp.lt_of_gt h]

theorem pairwise_sort (items : List α) :
    (items.mergeSort fun a b => (cmp a b).isLE).Pairwise fun a b => (cmp a b).isLE := by
  apply List.pairwise_mergeSort
  · intro a b c
    exact Std.TransCmp.isLE_trans
  · exact fun a b => isLE_or_isLE

/-- Sorting leaves items that tie in their order. -/
theorem sort (items : List α) :
    SameTies cmp (items.mergeSort fun a b => (cmp a b).isLE) items := by
  intro a
  have hTied : (items.filter fun b => cmp a b = .eq).Pairwise fun b c => (cmp b c).isLE := by
    apply List.pairwise_of_forall_mem_list
    intro b hb c hc
    have hab : cmp a b = .eq := of_decide_eq_true (List.mem_filter.mp hb).2
    have hac : cmp a c = .eq := of_decide_eq_true (List.mem_filter.mp hc).2
    rw [Std.TransCmp.eq_trans (Std.OrientedCmp.eq_symm hab) hac]
    rfl
  have hSub : (items.filter fun b => cmp a b = .eq).Sublist
      (items.mergeSort fun a b => (cmp a b).isLE) := by
    refine List.sublist_mergeSort ?_ ?_ hTied List.filter_sublist
    · intro a b c
      exact Std.TransCmp.isLE_trans
    · exact fun a b => isLE_or_isLE
  have hFiltered := hSub.filter fun b => cmp a b = .eq
  rw [List.filter_filter] at hFiltered
  simp only [Bool.and_self] at hFiltered
  exact (hFiltered.eq_of_length ((List.mergeSort_perm items _).filter _).length_eq.symm).symm

/-- Lists with the same classes of ties have the same sort. -/
theorem sort_eq (h : SameTies cmp items others) :
    (items.mergeSort fun a b => (cmp a b).isLE) = others.mergeSort fun a b => (cmp a b).isLE := by
  refine eq_of_pairwise (fun a => ?_) (pairwise_sort items) (pairwise_sort others)
  rw [sort items a, h a, sort others a]

/-- Lists with the same classes of ties hold the same items. -/
theorem perm (h : SameTies cmp items others) : items.Perm others :=
  (List.mergeSort_perm items _).symm.trans (h.sort_eq ▸ List.mergeSort_perm others _)

end Sorted

end SameTies

/-- Items may be left out before or after sorting. -/
theorem sortByKey_filter {κ : Type} [Ord κ] [Std.TransOrd κ] (key : α → κ) (p : α → Bool)
    (items : List α) : sortByKey key (items.filter p) = (sortByKey key items).filter p := by
  have hSort (items : List α) : SameTies (compareOn key) (sortByKey key items) items :=
    SameTies.sort items
  have hTies : SameTies (compareOn key) (sortByKey key (items.filter p))
      ((sortByKey key items).filter p) := by
    intro a
    rw [List.filter_comm, hSort (items.filter p) a, List.filter_comm, hSort items a, List.filter_comm]
  exact hTies.eq_of_pairwise (sortByKey_pairwise key _) ((sortByKey_pairwise key items).filter p)

end DatasetAudit
