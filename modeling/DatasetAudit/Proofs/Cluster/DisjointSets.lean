import DatasetAudit.Cluster.DisjointSets
import Mathlib.Data.Finset.Card
import Mathlib.Data.Finset.Range
import Mathlib.Logic.Relation

/-! Disjoint sets as the partition that the joins performed so far generate. Parents fall in some
rank, so the walk to a root ends within as many steps as there are elements; making the way shorter
changes no root, and a join merges exactly the sets of its two elements. -/

namespace DatasetAudit.DisjointSets

/-- The parent of an element; a root, and any number that is no element, is its own. -/
def up (parent : Array Nat) (x : Nat) : Nat :=
  parent.getD x x

theorem up_setIfInBounds (parent : Array Nat) {i : Nat} (hi : i < parent.size) (value x : Nat) :
    up (parent.setIfInBounds i value) x = if x = i then value else up parent x := by
  simp only [up, Array.getD_eq_getD_getElem?, Array.getElem?_setIfInBounds, eq_comm]
  split
  · simp_all
  · rfl

theorem lt_size_of_up_ne {parent : Array Nat} {x : Nat} (h : up parent x ≠ x) :
    x < parent.size := by
  apply Decidable.byContradiction
  intro hx
  apply h
  rw [up, Array.getD_eq_getD_getElem?, Array.getElem?_eq_none (Nat.le_of_not_lt hx)]
  rfl

/-- Parents lead from an element to a root. -/
inductive LeadsTo (parent : Array Nat) : Nat → Nat → Prop where
  | root {r : Nat} (hRoot : up parent r = r) : LeadsTo parent r r
  | step {x r : Nat} (hUp : up parent x ≠ x) (rest : LeadsTo parent (up parent x) r) :
      LeadsTo parent x r

namespace LeadsTo

variable {parent : Array Nat}

theorem up_eq {x r : Nat} (h : LeadsTo parent x r) : up parent r = r := by
  induction h with
  | root hRoot => exact hRoot
  | step _ _ ih => exact ih

/-- The way of an element goes on from its parent. -/
theorem up_iff {x r : Nat} : LeadsTo parent (up parent x) r ↔ LeadsTo parent x r := by
  by_cases hUp : up parent x = x
  · rw [hUp]
  · constructor
    · exact .step hUp
    · intro h
      cases h with
      | root hRoot => exact absurd hRoot hUp
      | step _ rest => exact rest

/-- An element has one root only. -/
theorem unique {x r s : Nat} (h : LeadsTo parent x r) (hs : LeadsTo parent x s) : r = s := by
  induction h with
  | root hRoot =>
      cases hs with
      | root => rfl
      | step hUp => exact absurd hRoot hUp
  | step hUp _ ih => exact ih (up_iff.mpr hs)

end LeadsTo

/-- A rank that falls along every way, so that no way leads round in a circle. -/
def Falls (parent : Array Nat) (rank : Nat → Nat) : Prop :=
  ∀ x, up parent x ≠ x → rank (up parent x) < rank x

/-- Parents are elements, and the ways along them end. -/
structure WellFormed (parent : Array Nat) : Prop where
  up_lt : ∀ x < parent.size, up parent x < parent.size
  falls : ∃ rank, Falls parent rank

namespace WellFormed

variable {parent : Array Nat}

/-- The rank can be chosen below the number of elements: it counts the elements that rank lower.
This is what bounds the steps to a root. -/
theorem exists_rank_lt (h : WellFormed parent) :
    ∃ rank, Falls parent rank ∧ ∀ x < parent.size, rank x < parent.size := by
  obtain ⟨rank, hFalls⟩ := h.falls
  let lower (x : Nat) := (Finset.range parent.size).filter fun y => rank y < rank x
  refine ⟨fun x => (lower x).card, ?_, ?_⟩
  · intro x hUp
    have hx := lt_size_of_up_ne hUp
    apply Finset.card_lt_card
    rw [Finset.ssubset_iff_of_subset]
    · refine ⟨up parent x, ?_, ?_⟩
      · simpa [lower] using ⟨h.up_lt x hx, hFalls x hUp⟩
      · simp [lower]
    · intro y hy
      simp only [lower, Finset.mem_filter] at hy ⊢
      exact ⟨hy.1, hy.2.trans (hFalls x hUp)⟩
  · intro x hx
    calc (lower x).card < (Finset.range parent.size).card := by
          apply Finset.card_lt_card
          rw [Finset.ssubset_iff_of_subset (Finset.filter_subset _ _)]
          exact ⟨x, Finset.mem_range.mpr hx, by simp⟩
      _ = parent.size := Finset.card_range _

theorem lt_size (h : WellFormed parent) {x r : Nat} (hx : x < parent.size)
    (hr : LeadsTo parent x r) : r < parent.size := by
  induction hr with
  | root => exact hx
  | step _ _ ih => exact ih (h.up_lt _ hx)

end WellFormed

theorem Falls.exists_root {parent : Array Nat} {rank : Nat → Nat} (h : Falls parent rank)
    (x : Nat) : ∃ r, LeadsTo parent x r := by
  generalize hRank : rank x = n
  induction n using Nat.strongRecOn generalizing x with
  | ind n ih =>
      by_cases hUp : up parent x = x
      · exact ⟨x, .root hUp⟩
      · obtain ⟨r, hr⟩ := ih (rank (up parent x)) (hRank ▸ h x hUp) (up parent x) rfl
        exact ⟨r, .step hUp hr⟩

theorem WellFormed.exists_root {parent : Array Nat} (h : WellFormed parent) (x : Nat) :
    ∃ r, LeadsTo parent x r := by
  obtain ⟨_, hFalls⟩ := h.falls
  exact hFalls.exists_root x

/-- The parents after ways were made shorter: every way still leads to its root, and falls in
every rank in which it fell before. -/
structure Shortened (before after : Array Nat) : Prop where
  size_eq : after.size = before.size
  up_lt : (∀ x < before.size, up before x < before.size) →
    ∀ x < before.size, up after x < before.size
  falls : ∀ rank, Falls before rank → Falls after rank
  leadsTo : ∀ x r, LeadsTo before x r → LeadsTo after x r

namespace Shortened

theorem refl (parent : Array Nat) : Shortened parent parent :=
  ⟨rfl, fun h => h, fun _ h => h, fun _ _ h => h⟩

theorem trans {first second third : Array Nat} (h : Shortened first second)
    (h' : Shortened second third) : Shortened first third where
  size_eq := h'.size_eq.trans h.size_eq
  up_lt hLt := by
    have hSecond := h'.up_lt
    rw [h.size_eq] at hSecond
    exact hSecond (h.up_lt hLt)
  falls rank hFalls := h'.falls rank (h.falls rank hFalls)
  leadsTo x r hr := h'.leadsTo x r (h.leadsTo x r hr)

theorem wellFormed {before after : Array Nat} (h : Shortened before after)
    (hBefore : WellFormed before) : WellFormed after where
  up_lt := by
    rw [h.size_eq]
    exact h.up_lt hBefore.up_lt
  falls := by
    obtain ⟨rank, hFalls⟩ := hBefore.falls
    exact ⟨rank, h.falls rank hFalls⟩

/-- Nothing is lost in the other direction either, as every way ended before. -/
theorem leadsTo_iff {before after : Array Nat} (h : Shortened before after)
    (hBefore : WellFormed before) {x r : Nat} : LeadsTo after x r ↔ LeadsTo before x r := by
  constructor
  · intro hr
    obtain ⟨s, hs⟩ := hBefore.exists_root x
    rw [hr.unique (h.leadsTo x s hs)]
    exact hs
  · exact h.leadsTo x r

end Shortened

/-- An element that is given its grandparent as parent comes closer to the same root. -/
theorem shortened_setIfInBounds {parent : Array Nat} {x : Nat} (hUp : up parent x ≠ x) :
    Shortened parent (parent.setIfInBounds x (up parent (up parent x))) := by
  have hSet := up_setIfInBounds parent (lt_size_of_up_ne hUp) (up parent (up parent x))
  refine ⟨Array.size_setIfInBounds, ?_, ?_, ?_⟩
  · intro hLt y hy
    rw [hSet]
    split
    · exact hLt _ (hLt x (lt_size_of_up_ne hUp))
    · exact hLt y hy
  · intro rank hFalls y hY
    rw [hSet] at hY ⊢
    split at hY
    · rename_i hEq
      subst hEq
      rw [if_pos rfl]
      by_cases hGrand : up parent (up parent y) = up parent y
      · rw [hGrand]
        exact hFalls y hUp
      · exact (hFalls _ hGrand).trans (hFalls y hUp)
    · rename_i hNe
      rw [if_neg hNe]
      exact hFalls y hY
  · intro y r hr
    induction hr with
    | @root r hRoot =>
        have hNe : r ≠ x := by
          rintro rfl
          exact hUp hRoot
        exact .root (by rw [hSet, if_neg hNe, hRoot])
    | @step y r hY _ ih =>
        rw [← LeadsTo.up_iff, hSet]
        split
        · rename_i hEq
          subst hEq
          -- The grandparent is the parent's parent in the new array too.
          rw [← LeadsTo.up_iff, hSet, if_neg hUp] at ih
          exact ih
        · exact ih

/-- The walk up to a root, with nothing that bounds its steps: it stops at an element that is its
own parent, and from any other one it goes on at the grandparent, which becomes the parent. There is
no rule for a number whose parent cannot be looked up. -/
inductive Walk : Array Nat → Nat → Nat → Array Nat → Prop where
  | stop {parent : Array Nat} {r : Nat} (hRoot : parent[r]? = some r) : Walk parent r r parent
  | halve {parent after : Array Nat} {x above next r : Nat} (hAbove : parent[x]? = some above)
      (hNe : above ≠ x) (hNext : parent[above]? = some next)
      (rest : Walk (parent.setIfInBounds x next) next r after) : Walk parent x r after

theorem getElem?_eq_some_up {parent : Array Nat} {x : Nat} (hx : x < parent.size) :
    parent[x]? = some (up parent x) := by
  rw [up, Array.getD_eq_getD_getElem?, Array.getElem?_eq_getElem hx]
  rfl

theorem up_eq_of_getElem? {parent : Array Nat} {x p : Nat} (h : parent[x]? = some p) :
    up parent x = p := by
  rw [up, Array.getD_eq_getD_getElem?, h]
  rfl

/-- A walk ends at the root of its element, and only makes ways shorter. -/
theorem Walk.spec {parent after : Array Nat} {x r : Nat} (h : Walk parent x r after)
    (hParent : WellFormed parent) : LeadsTo parent x r ∧ Shortened parent after := by
  induction h with
  | stop hRoot => exact ⟨.root (up_eq_of_getElem? hRoot), .refl _⟩
  | @halve parent _ x above next _ hAbove hNe hNext _ ih =>
      obtain rfl := up_eq_of_getElem? hAbove
      obtain rfl := up_eq_of_getElem? hNext
      have hShort := shortened_setIfInBounds hNe
      obtain ⟨hLeads, hRest⟩ := ih (hShort.wellFormed hParent)
      refine ⟨?_, hShort.trans hRest⟩
      rw [← LeadsTo.up_iff, ← LeadsTo.up_iff]
      exact (hShort.leadsTo_iff hParent).mp hLeads

/-- With as many steps as the rank of an element, the walk up from it comes to its end. -/
theorem climb_walk {rank : Nat → Nat} (steps : Nat) {parent : Array Nat} {x : Nat}
    (hLt : ∀ y < parent.size, up parent y < parent.size) (hFalls : Falls parent rank)
    (hx : x < parent.size) (hRank : rank x ≤ steps) :
    Walk parent x (climb steps parent x).1 (climb steps parent x).2 := by
  induction steps generalizing parent x with
  | zero =>
      have hUp : up parent x = x := by
        apply Decidable.byContradiction
        intro hUp
        have hLess := hFalls x hUp
        omega
      exact .stop ((getElem?_eq_some_up hx).trans (congrArg some hUp))
  | succ steps ih =>
      by_cases hUp : up parent x = x
      · have hClimb : climb (steps + 1) parent x = (x, parent) := if_pos hUp
        rw [hClimb]
        exact .stop ((getElem?_eq_some_up hx).trans (congrArg some hUp))
      · let next := up parent (up parent x)
        have hClimb : climb (steps + 1) parent x =
            climb steps (parent.setIfInBounds x next) next := if_neg hUp
        have hShort := shortened_setIfInBounds hUp
        have hNext : rank next ≤ steps := by
          have hLess := hFalls x hUp
          by_cases hGrand : next = up parent x
          · rw [hGrand]
            omega
          · have hLess' := hFalls (up parent x) hGrand
            change rank next < _ at hLess'
            omega
        have hNextLt : next < (parent.setIfInBounds x next).size := by
          rw [Array.size_setIfInBounds]
          exact hLt _ (hLt x hx)
        have hLtAfter := hShort.up_lt hLt
        rw [← hShort.size_eq] at hLtAfter
        rw [hClimb]
        exact .halve (getElem?_eq_some_up hx) hUp (getElem?_eq_some_up (hLt x hx))
          (ih hLtAfter (hShort.falls rank hFalls) hNextLt hNext)

/-- `find` takes the whole walk to a root: it does not run out of steps. -/
theorem find_walk {sets : DisjointSets} (h : WellFormed sets.parent) {x : Nat}
    (hx : x < sets.parent.size) :
    Walk sets.parent x (sets.find x).1 (sets.find x).2.parent := by
  obtain ⟨rank, hFalls, hRank⟩ := h.exists_rank_lt
  exact climb_walk sets.parent.size h.up_lt hFalls hx (hRank x hx).le

/-- `find` gives the root. -/
theorem find_leadsTo {sets : DisjointSets} (h : WellFormed sets.parent) (x : Nat) :
    LeadsTo sets.parent x (sets.find x).1 := by
  by_cases hx : x < sets.parent.size
  · exact ((find_walk h hx).spec h).1
  · have hUp : up sets.parent x = x := by
      apply Decidable.byContradiction
      intro hUp
      exact hx (lt_size_of_up_ne hUp)
    have hClimb (steps : Nat) : (climb steps sets.parent x).1 = x := by
      cases steps with
      | zero => rfl
      | succ steps => exact congrArg Prod.fst (if_pos hUp)
    rw [show (sets.find x).1 = x from hClimb sets.parent.size]
    exact .root hUp

/-- `find` only makes ways shorter. -/
theorem find_shortened {sets : DisjointSets} (h : WellFormed sets.parent) {x : Nat}
    (hx : x < sets.parent.size) : Shortened sets.parent (sets.find x).2.parent :=
  ((find_walk h hx).spec h).2

/-- Two elements have one root. -/
def Same (parent : Array Nat) (a b : Nat) : Prop :=
  ∃ r, LeadsTo parent a r ∧ LeadsTo parent b r

theorem find_eq_iff_same {sets : DisjointSets} (h : WellFormed sets.parent) {a b : Nat} :
    (sets.find a).1 = (sets.find b).1 ↔ Same sets.parent a b := by
  constructor
  · intro hEq
    exact ⟨_, find_leadsTo h a, hEq ▸ find_leadsTo h b⟩
  · rintro ⟨r, ha, hb⟩
    rw [(find_leadsTo h a).unique ha, (find_leadsTo h b).unique hb]

/-- What a join leaves of the sets. It looks for the roots of both elements, and unless they are one
it attaches one of them to the other, which then has the elements of both. -/
inductive Joined (sets : DisjointSets) (a b : Nat) : DisjointSets → Prop where
  | same {parent : Array Nat} (hShort : Shortened sets.parent parent) (hSame : Same parent a b) :
      Joined sets a b ⟨parent, sets.size⟩
  | attached {parent : Array Nat} {small big : Nat} (hShort : Shortened sets.parent parent)
      (hEnds : (LeadsTo parent a small ∧ LeadsTo parent b big) ∨
        (LeadsTo parent a big ∧ LeadsTo parent b small)) (hNe : small ≠ big) :
      Joined sets a b ⟨parent.setIfInBounds small big,
        sets.size.setIfInBounds big (sets.size.getD small 0 + sets.size.getD big 0)⟩

theorem union_joined {sets : DisjointSets} (h : WellFormed sets.parent) {a b : Nat}
    (ha : a < sets.parent.size) (hb : b < sets.parent.size) :
    Joined sets a b (sets.union a b) := by
  have hFirst := find_shortened h ha
  have hAfterFirst := hFirst.wellFormed h
  have hSecond := find_shortened hAfterFirst (hFirst.size_eq.symm ▸ hb)
  have hShort := hFirst.trans hSecond
  have hRootA := hShort.leadsTo _ _ (find_leadsTo h a)
  have hRootB := hSecond.leadsTo _ _ (find_leadsTo hAfterFirst b)
  rw [DisjointSets.union]
  dsimp only
  split
  · rename_i hEq
    exact .same hShort ⟨_, hRootA, hEq ▸ hRootB⟩
  · rename_i hNe
    split
    · rw [Nat.add_comm]
      exact .attached hShort (.inr ⟨hRootA, hRootB⟩) (Ne.symm hNe)
    · exact .attached hShort (.inl ⟨hRootA, hRootB⟩) hNe

section Attach

variable {parent : Array Nat} {small big : Nat}

/-- A root that is given another root as parent takes along all elements that lead to it. -/
theorem leadsTo_attach (hSmall : up parent small = small) (hBig : up parent big = big)
    (hNe : small ≠ big) (hLt : small < parent.size) {x r : Nat} (h : LeadsTo parent x r) :
    LeadsTo (parent.setIfInBounds small big) x (if r = small then big else r) := by
  have hSet := up_setIfInBounds parent hLt big
  induction h with
  | @root r hRoot =>
      split
      · rename_i hEq
        subst hEq
        rw [← LeadsTo.up_iff, hSet, if_pos rfl]
        exact .root (by rw [hSet, if_neg hNe.symm, hBig])
      · rename_i hOther
        exact .root (by rw [hSet, if_neg hOther, hRoot])
  | @step x r hUp _ ih =>
      have hOther : x ≠ small := by
        rintro rfl
        exact hUp hSmall
      rw [← LeadsTo.up_iff, hSet, if_neg hOther]
      exact ih

/-- The rank after the join puts everything that leads to the attached root above the other. -/
theorem wellFormed_attach (h : WellFormed parent) (hSmall : up parent small = small)
    (hBig : up parent big = big) (hNe : small ≠ big) (hLt : small < parent.size)
    (hBigLt : big < parent.size) : WellFormed (parent.setIfInBounds small big) := by
  classical
  have hSet := up_setIfInBounds parent hLt big
  obtain ⟨rank, hFalls⟩ := h.falls
  constructor
  · intro x hx
    rw [Array.size_setIfInBounds] at hx ⊢
    rw [hSet]
    split
    · exact hBigLt
    · exact h.up_lt x hx
  · refine ⟨fun x => if LeadsTo parent x small then rank x + rank big + 1 else rank x, ?_⟩
    intro x hUp
    rw [hSet] at hUp ⊢
    by_cases hx : x = small
    · subst hx
      have hNot : ¬LeadsTo parent big x := fun hr => hNe (hr.unique (.root hBig))
      simp only [↓reduceIte, if_neg hNot, if_pos (LeadsTo.root hSmall)]
      omega
    · rw [if_neg hx] at hUp ⊢
      have hLess := hFalls x hUp
      simp only [LeadsTo.up_iff]
      split <;> omega

theorem same_attach (h : WellFormed parent) (hSmall : up parent small = small)
    (hBig : up parent big = big) (hNe : small ≠ big) (hLt : small < parent.size) {x y : Nat} :
    Same (parent.setIfInBounds small big) x y ↔ Same parent x y ∨
      (LeadsTo parent x small ∧ LeadsTo parent y big) ∨
      (LeadsTo parent x big ∧ LeadsTo parent y small) := by
  obtain ⟨r, hr⟩ := h.exists_root x
  obtain ⟨s, hs⟩ := h.exists_root y
  have hr' := leadsTo_attach hSmall hBig hNe hLt hr
  have hs' := leadsTo_attach hSmall hBig hNe hLt hs
  have hLeadsX (t : Nat) : LeadsTo parent x t ↔ r = t := ⟨hr.unique, fun he => he ▸ hr⟩
  have hLeadsY (t : Nat) : LeadsTo parent y t ↔ s = t := ⟨hs.unique, fun he => he ▸ hs⟩
  have hBefore : Same parent x y ↔ r = s := by
    simp only [Same, hLeadsX, hLeadsY, exists_eq_left', eq_comm]
  have hAfter : Same (parent.setIfInBounds small big) x y ↔
      (if r = small then big else r) = (if s = small then big else s) := by
    constructor
    · rintro ⟨t, hx, hy⟩
      rw [hr'.unique hx, hs'.unique hy]
    · intro he
      exact ⟨_, hr', he ▸ hs'⟩
  rw [hBefore, hAfter, hLeadsX, hLeadsX, hLeadsY, hLeadsY]
  split <;> split <;> omega

end Attach

/-- The equivalence that an edge more generates. -/
theorem eqvGen_or_iff {R : Nat → Nat → Prop} {a b x y : Nat} :
    Relation.EqvGen (fun u v => R u v ∨ (u = a ∧ v = b)) x y ↔ Relation.EqvGen R x y ∨
      (Relation.EqvGen R x a ∧ Relation.EqvGen R y b) ∨
      (Relation.EqvGen R x b ∧ Relation.EqvGen R y a) := by
  have hMono : Relation.EqvGen R ≤ Relation.EqvGen fun u v => R u v ∨ (u = a ∧ v = b) :=
    Relation.EqvGen.mono fun u v h => .inl h
  have hEdge : Relation.EqvGen (fun u v => R u v ∨ (u = a ∧ v = b)) a b :=
    .rel _ _ (.inr ⟨rfl, rfl⟩)
  constructor
  · intro h
    induction h with
    | rel u v h =>
        rcases h with h | ⟨rfl, rfl⟩
        · exact .inl (.rel _ _ h)
        · exact .inr (.inl ⟨.refl _, .refl _⟩)
    | refl u => exact .inl (.refl u)
    | symm u v _ ih =>
        rcases ih with h | ⟨hu, hv⟩ | ⟨hu, hv⟩
        · exact .inl (.symm _ _ h)
        · exact .inr (.inr ⟨hv, hu⟩)
        · exact .inr (.inl ⟨hv, hu⟩)
    | trans u v w _ _ ih ih' =>
        have hJoin {p q r : Nat} (h : Relation.EqvGen R p q) (h' : Relation.EqvGen R q r) :
            Relation.EqvGen R p r := .trans _ _ _ h h'
        have hFlip {p q : Nat} (h : Relation.EqvGen R p q) : Relation.EqvGen R q p := .symm _ _ h
        rcases ih with h | ⟨hu, hv⟩ | ⟨hu, hv⟩ <;> rcases ih' with h' | ⟨hv', hw⟩ | ⟨hv', hw⟩
        · exact .inl (hJoin h h')
        · exact .inr (.inl ⟨hJoin h hv', hw⟩)
        · exact .inr (.inr ⟨hJoin h hv', hw⟩)
        · exact .inr (.inl ⟨hu, hJoin (hFlip h') hv⟩)
        · exact .inr (.inl ⟨hu, hw⟩)
        · exact .inl (hJoin hu (hFlip hw))
        · exact .inr (.inr ⟨hu, hJoin (hFlip h') hv⟩)
        · exact .inl (hJoin hu (hFlip hw))
        · exact .inr (.inr ⟨hu, hw⟩)
  · rintro (h | ⟨hx, hy⟩ | ⟨hx, hy⟩)
    · exact hMono _ _ h
    · exact .trans _ _ _ (hMono _ _ hx) (.trans _ _ _ hEdge (.symm _ _ (hMono _ _ hy)))
    · exact .trans _ _ _ (hMono _ _ hx)
        (.trans _ _ _ (.symm _ _ hEdge) (.symm _ _ (hMono _ _ hy)))

theorem up_singletons (n x : Nat) : up (singletons n).parent x = x := by
  by_cases hx : x < n
  · simp [up, singletons, hx]
  · simp [up, singletons, hx]

/-- The sets of the numbers below `n` are the classes that the edges generate. -/
structure Represents (sets : DisjointSets) (n : Nat) (edges : Nat → Nat → Prop) : Prop where
  size_eq : sets.parent.size = n
  wellFormed : WellFormed sets.parent
  same_iff : ∀ x y, Same sets.parent x y ↔ Relation.EqvGen edges x y

namespace Represents

variable {sets : DisjointSets} {n : Nat} {edges : Nat → Nat → Prop}

theorem find_eq_iff (h : Represents sets n edges) {a b : Nat} :
    (sets.find a).1 = (sets.find b).1 ↔ Relation.EqvGen edges a b :=
  (find_eq_iff_same h.wellFormed).trans (h.same_iff a b)

/-- In the beginning every element is alone. -/
theorem singletons (n : Nat) : Represents (DisjointSets.singletons n) n fun _ _ => False := by
  have hUp := up_singletons n
  refine ⟨Array.size_range, ⟨?_, fun _ => 0, fun x hx => absurd (hUp x) hx⟩, ?_⟩
  · intro x hx
    rw [hUp]
    exact hx
  · intro x y
    constructor
    · rintro ⟨r, hx, hy⟩
      rw [hx.unique (.root (hUp x))] at hy
      rw [hy.unique (.root (hUp y))]
      exact .refl y
    · intro h
      induction h with
      | rel _ _ h => exact h.elim
      | refl x => exact ⟨x, .root (hUp x), .root (hUp x)⟩
      | symm _ _ _ ih => exact ih.imp fun _ h => h.symm
      | trans _ _ _ _ _ ih ih' =>
          obtain ⟨r, hx, hy⟩ := ih
          obtain ⟨s, hy', hz⟩ := ih'
          exact ⟨r, hx, hy'.unique hy ▸ hz⟩

/-- Shorter ways change no set. -/
theorem shortened (h : Represents sets n edges) {parent : Array Nat} (size : Array Nat)
    (hShort : Shortened sets.parent parent) : Represents ⟨parent, size⟩ n edges := by
  refine ⟨hShort.size_eq.trans h.size_eq, hShort.wellFormed h.wellFormed, ?_⟩
  intro x y
  rw [← h.same_iff]
  simp only [Same, hShort.leadsTo_iff h.wellFormed]

/-- Looking for a root changes no set. -/
theorem find (h : Represents sets n edges) {a : Nat} (ha : a < n) :
    Represents (sets.find a).2 n edges :=
  h.shortened sets.size (find_shortened h.wellFormed (h.size_eq.symm ▸ ha))

/-- Whether another root was looked for before makes no difference to the root found. -/
theorem find_find (h : Represents sets n edges) {a : Nat} (ha : a < n) (b : Nat) :
    ((sets.find a).2.find b).1 = (sets.find b).1 := by
  have hShort := find_shortened h.wellFormed (h.size_eq.symm ▸ ha)
  have hRoot := find_leadsTo (h.find ha).wellFormed b
  exact ((hShort.leadsTo_iff h.wellFormed).mp hRoot).unique (find_leadsTo h.wellFormed b)

/-- An edge within a set adds nothing. -/
theorem of_eqvGen (h : Represents sets n edges) {a b : Nat} (hab : Relation.EqvGen edges a b) :
    Represents sets n fun u v => edges u v ∨ (u = a ∧ v = b) := by
  refine ⟨h.size_eq, h.wellFormed, ?_⟩
  intro x y
  rw [h.same_iff, eqvGen_or_iff]
  constructor
  · exact .inl
  · rintro (h | ⟨hx, hy⟩ | ⟨hx, hy⟩)
    · exact h
    · exact .trans _ _ _ hx (.trans _ _ _ hab (.symm _ _ hy))
    · exact .trans _ _ _ hx (.trans _ _ _ (.symm _ _ hab) (.symm _ _ hy))

theorem same_iff_leadsTo (h : Represents sets n edges) {x a r : Nat}
    (ha : LeadsTo sets.parent a r) : Relation.EqvGen edges x a ↔ LeadsTo sets.parent x r := by
  rw [← h.same_iff]
  constructor
  · rintro ⟨s, hx, hs⟩
    rw [ha.unique hs]
    exact hx
  · intro hx
    exact ⟨r, hx, ha⟩

/-- The direction of an edge does not matter. -/
theorem flip {a b : Nat} (h : Represents sets n fun u v => edges u v ∨ (u = b ∧ v = a)) :
    Represents sets n fun u v => edges u v ∨ (u = a ∧ v = b) := by
  refine ⟨h.size_eq, h.wellFormed, ?_⟩
  intro x y
  rw [h.same_iff, eqvGen_or_iff, eqvGen_or_iff]
  exact or_congr_right or_comm

/-- Attaching the root of one element to the root of another joins their sets. -/
theorem attach (h : Represents sets n edges) {a b small big : Nat} (size : Array Nat)
    (ha : LeadsTo sets.parent a small) (hb : LeadsTo sets.parent b big) (hNe : small ≠ big)
    (hLt : a < n) (hLt' : b < n) :
    Represents ⟨sets.parent.setIfInBounds small big, size⟩ n
      fun u v => edges u v ∨ (u = a ∧ v = b) := by
  have hSmallLt := h.wellFormed.lt_size (h.size_eq.symm ▸ hLt) ha
  have hBigLt := h.wellFormed.lt_size (h.size_eq.symm ▸ hLt') hb
  refine ⟨Array.size_setIfInBounds.trans h.size_eq,
    wellFormed_attach h.wellFormed ha.up_eq hb.up_eq hNe hSmallLt hBigLt, ?_⟩
  intro x y
  rw [same_attach h.wellFormed ha.up_eq hb.up_eq hNe hSmallLt, eqvGen_or_iff, h.same_iff]
  simp only [h.same_iff_leadsTo ha, h.same_iff_leadsTo hb]

/-- A join adds its edge. -/
theorem union (h : Represents sets n edges) {a b : Nat} (ha : a < n) (hb : b < n) :
    Represents (sets.union a b) n fun u v => edges u v ∨ (u = a ∧ v = b) := by
  have hJoined := union_joined h.wellFormed (h.size_eq.symm ▸ ha) (h.size_eq.symm ▸ hb)
  generalize sets.union a b = after at hJoined ⊢
  cases hJoined with
  | same hShort hSame =>
      have hAfter := h.shortened sets.size hShort
      exact hAfter.of_eqvGen ((hAfter.same_iff a b).mp hSame)
  | attached hShort hEnds hNe =>
      have hAfter := h.shortened sets.size hShort
      rcases hEnds with ⟨hRootA, hRootB⟩ | ⟨hRootA, hRootB⟩
      · exact hAfter.attach _ hRootA hRootB hNe ha hb
      · exact (hAfter.attach _ hRootB hRootA hNe hb ha).flip

end Represents

end DatasetAudit.DisjointSets
