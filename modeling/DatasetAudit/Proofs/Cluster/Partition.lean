import DatasetAudit.Proofs.Cluster.Linking
import Mathlib.Algebra.BigOperators.Group.Finset.Basic

/-! Disjoint sets over whole sequences of calls. Whatever is looked for and joined, and in whatever
order, every walk to a root comes to its end, elements share a root exactly when joins connect them,
and every root knows the size of its set. The invariant on sizes counts the elements that lead to a
root: shorter ways leave these counts alone, and a join adds two of them up. -/

namespace DatasetAudit.DisjointSets

section Roots

variable {parent : Array Nat}

theorem LeadsTo.self_iff {r : Nat} : LeadsTo parent r r ↔ up parent r = r :=
  ⟨LeadsTo.up_eq, .root⟩

theorem getElem?_eq_self_iff {r : Nat} (hr : r < parent.size) :
    parent[r]? = some r ↔ up parent r = r := by
  rw [getElem?_eq_some_up hr, Option.some.injEq]

theorem LeadsTo.getElem?_eq (h : WellFormed parent) {x r : Nat} (hx : x < parent.size)
    (hr : LeadsTo parent x r) : parent[r]? = some r :=
  (getElem?_eq_self_iff (h.lt_size hx hr)).mpr hr.up_eq

/-- The rank falls on every way of one step or more, so that no such way leads back. -/
theorem WellFormed.not_cycle (h : WellFormed parent) (x : Nat) :
    ¬Relation.TransGen (fun y p : Nat => parent[y]? = some p ∧ p ≠ y) x x := by
  obtain ⟨rank, hFalls⟩ := h.falls
  have hStep {y p : Nat} (hUp : parent[y]? = some p ∧ p ≠ y) : rank p < rank y := by
    obtain rfl := up_eq_of_getElem? hUp.1
    exact hFalls y hUp.2
  have hLess {y z : Nat}
      (hWay : Relation.TransGen (fun y p : Nat => parent[y]? = some p ∧ p ≠ y) y z) :
      rank z < rank y := by
    induction hWay with
    | single hUp => exact hStep hUp
    | tail _ hUp ih => exact (hStep hUp).trans ih
  intro hCycle
  exact Nat.lt_irrefl _ (hLess hCycle)

end Roots

section Weights

variable {parent : Array Nat}

open Classical in
/-- How many elements lead to a root. -/
noncomputable def weight (parent : Array Nat) (r : Nat) : Nat :=
  ((Finset.range parent.size).filter fun x => LeadsTo parent x r).card

theorem weight_eq_card {p : Nat → Prop} [DecidablePred p] {n r : Nat} (hSize : parent.size = n)
    (h : ∀ x, LeadsTo parent x r ↔ p x) : weight parent r = ((Finset.range n).filter p).card := by
  classical
  subst hSize
  exact congrArg Finset.card (Finset.filter_congr fun x _ => h x)

/-- Every element leads to one root, so the weights of all roots make up the elements. -/
theorem sum_weight (h : WellFormed parent) :
    ∑ r ∈ Finset.range parent.size with up parent r = r, weight parent r = parent.size := by
  classical
  let root (x : Nat) := (h.exists_root x).choose
  have hRoot (x : Nat) : LeadsTo parent x (root x) := (h.exists_root x).choose_spec
  have hFiber (x r : Nat) : root x = r ↔ LeadsTo parent x r :=
    ⟨fun he => he ▸ hRoot x, fun hr => (hRoot x).unique hr⟩
  have hMaps : Set.MapsTo root (Finset.range parent.size : Set Nat)
      ((Finset.range parent.size).filter fun r => up parent r = r : Set Nat) := by
    intro x hx
    have hLt : x < parent.size := by simpa using hx
    simpa using ⟨h.lt_size hLt (hRoot x), (hRoot x).up_eq⟩
  calc ∑ r ∈ Finset.range parent.size with up parent r = r, weight parent r
      = (Finset.range parent.size).card := by
        rw [Finset.card_eq_sum_card_fiberwise hMaps]
        simp only [hFiber, weight]
    _ = parent.size := Finset.card_range _

section Attach

variable {small big : Nat}

theorem leadsTo_attach_iff (h : WellFormed parent) (hSmall : up parent small = small)
    (hBig : up parent big = big) (hNe : small ≠ big) (hLt : small < parent.size) {x r : Nat} :
    LeadsTo (parent.setIfInBounds small big) x r ↔
      (r = big ∧ (LeadsTo parent x small ∨ LeadsTo parent x big)) ∨
        (r ≠ small ∧ r ≠ big ∧ LeadsTo parent x r) := by
  obtain ⟨s, hs⟩ := h.exists_root x
  have hAfter := leadsTo_attach hSmall hBig hNe hLt hs
  have hBefore (t : Nat) : LeadsTo parent x t ↔ s = t := ⟨hs.unique, fun he => he ▸ hs⟩
  have hRoot : LeadsTo (parent.setIfInBounds small big) x r ↔
      (if s = small then big else s) = r := ⟨hAfter.unique, fun he => he ▸ hAfter⟩
  rw [hRoot, hBefore, hBefore, hBefore]
  split <;> omega

/-- The root that stays has the elements of both sets. -/
theorem weight_attach_self (h : WellFormed parent) (hSmall : up parent small = small)
    (hBig : up parent big = big) (hNe : small ≠ big) (hLt : small < parent.size) :
    weight (parent.setIfInBounds small big) big = weight parent small + weight parent big := by
  classical
  have hApart : Disjoint ((Finset.range parent.size).filter fun x => LeadsTo parent x small)
      ((Finset.range parent.size).filter fun x => LeadsTo parent x big) := by
    rw [Finset.disjoint_filter]
    intro x _ hx hx'
    exact hNe (hx.unique hx')
  calc weight (parent.setIfInBounds small big) big
      = ((Finset.range parent.size).filter fun x =>
          LeadsTo parent x small ∨ LeadsTo parent x big).card := by
        apply weight_eq_card Array.size_setIfInBounds
        intro x
        simp [leadsTo_attach_iff h hSmall hBig hNe hLt]
    _ = weight parent small + weight parent big := by
        rw [Finset.filter_or, Finset.card_union_of_disjoint hApart]
        rfl

theorem weight_attach_other (h : WellFormed parent) (hSmall : up parent small = small)
    (hBig : up parent big = big) (hNe : small ≠ big) (hLt : small < parent.size) {r : Nat}
    (hNotSmall : r ≠ small) (hNotBig : r ≠ big) :
    weight (parent.setIfInBounds small big) r = weight parent r := by
  classical
  apply weight_eq_card Array.size_setIfInBounds
  intro x
  simp [leadsTo_attach_iff h hSmall hBig hNe hLt, hNotSmall, hNotBig]

end Attach

end Weights

/-- Every root knows how many elements lead to it. -/
structure Weighted (sets : DisjointSets) : Prop where
  size_eq : sets.size.size = sets.parent.size
  weight_eq : ∀ r < sets.parent.size, up sets.parent r = r →
    sets.size[r]? = some (weight sets.parent r)

namespace Weighted

variable {sets : DisjointSets}

theorem getD_eq (h : Weighted sets) {r : Nat} (hLt : r < sets.parent.size)
    (hRoot : up sets.parent r = r) : sets.size.getD r 0 = weight sets.parent r := by
  rw [Array.getD_eq_getD_getElem?, h.weight_eq r hLt hRoot]
  rfl

theorem singletons (n : Nat) : Weighted (DisjointSets.singletons n) := by
  have hSize : (DisjointSets.singletons n).parent.size = n := Array.size_range
  refine ⟨by simp [DisjointSets.singletons], ?_⟩
  intro r hr hRoot
  rw [hSize] at hr
  have hOnly (x : Nat) : LeadsTo (DisjointSets.singletons n).parent x r ↔ x = r := by
    constructor
    · intro h
      exact (LeadsTo.root (up_singletons n x)).unique h
    · rintro rfl
      exact .root hRoot
  rw [weight_eq_card hSize hOnly]
  simp [Finset.filter_eq', DisjointSets.singletons, hr]

theorem shortened (h : Weighted sets) (hSets : WellFormed sets.parent) {parent : Array Nat}
    (hShort : Shortened sets.parent parent) : Weighted ⟨parent, sets.size⟩ := by
  classical
  refine ⟨h.size_eq.trans hShort.size_eq.symm, ?_⟩
  intro r hr hRoot
  have hWeight : weight parent r = weight sets.parent r :=
    weight_eq_card hShort.size_eq fun x => hShort.leadsTo_iff hSets
  rw [← LeadsTo.self_iff, hShort.leadsTo_iff hSets, LeadsTo.self_iff] at hRoot
  rw [hWeight]
  exact h.weight_eq r (hShort.size_eq ▸ hr) hRoot

/-- A root that is attached to another gives it its weight. -/
theorem attach (h : Weighted sets) (hSets : WellFormed sets.parent) {small big : Nat}
    (hSmall : up sets.parent small = small) (hBig : up sets.parent big = big) (hNe : small ≠ big)
    (hLt : small < sets.parent.size) (hBigLt : big < sets.parent.size) :
    Weighted ⟨sets.parent.setIfInBounds small big,
      sets.size.setIfInBounds big (sets.size.getD small 0 + sets.size.getD big 0)⟩ := by
  refine ⟨by simp [h.size_eq], ?_⟩
  intro r hr hRoot
  have hNotSmall : r ≠ small := by
    rintro rfl
    rw [up_setIfInBounds _ hLt, if_pos rfl] at hRoot
    exact hNe hRoot.symm
  rw [up_setIfInBounds _ hLt, if_neg hNotSmall] at hRoot
  rw [Array.size_setIfInBounds] at hr
  rw [Array.getElem?_setIfInBounds]
  by_cases hEq : big = r
  · subst hEq
    have hSizeLt : big < sets.size.size := h.size_eq.symm ▸ hBigLt
    rw [if_pos rfl, if_pos hSizeLt, h.getD_eq hLt hSmall, h.getD_eq hBigLt hBig,
      weight_attach_self hSets hSmall hBig hNe hLt]
  · rw [if_neg hEq, weight_attach_other hSets hSmall hBig hNe hLt hNotSmall (Ne.symm hEq)]
    exact h.weight_eq r hr hRoot

theorem find (h : Weighted sets) (hSets : WellFormed sets.parent) {x : Nat}
    (hx : x < sets.parent.size) : Weighted (sets.find x).2 :=
  h.shortened hSets (find_shortened hSets hx)

theorem union (h : Weighted sets) (hSets : WellFormed sets.parent) {a b : Nat}
    (ha : a < sets.parent.size) (hb : b < sets.parent.size) : Weighted (sets.union a b) := by
  have hJoined := union_joined hSets ha hb
  generalize sets.union a b = after at hJoined ⊢
  cases hJoined with
  | same hShort _ => exact h.shortened hSets hShort
  | @attached parent small big hShort hEnds hNe =>
      have hParent := hShort.wellFormed hSets
      rw [← hShort.size_eq] at ha hb
      have hAfter := h.shortened hSets hShort
      have hLtA {r : Nat} (hRoot : LeadsTo parent a r) : r < parent.size := hParent.lt_size ha hRoot
      have hLtB {r : Nat} (hRoot : LeadsTo parent b r) : r < parent.size := hParent.lt_size hb hRoot
      rcases hEnds with ⟨hRootA, hRootB⟩ | ⟨hRootA, hRootB⟩
      · exact hAfter.attach hParent hRootA.up_eq hRootB.up_eq hNe (hLtA hRootA) (hLtB hRootB)
      · exact hAfter.attach hParent hRootB.up_eq hRootA.up_eq hNe (hLtB hRootB) (hLtA hRootA)

end Weighted

/-- What disjoint sets are asked to do. -/
inductive Call where
  | find (x : Nat)
  | union (a b : Nat)
deriving DecidableEq

namespace Call

/-- The call names elements only. -/
def Within (n : Nat) : Call → Prop
  | find x => x < n
  | union a b => a < n ∧ b < n

instance (n : Nat) : DecidablePred (Within n)
  | find x => inferInstanceAs (Decidable (x < n))
  | union a b => inferInstanceAs (Decidable (a < n ∧ b < n))

/-- The sets after a call. -/
def apply (sets : DisjointSets) : Call → DisjointSets
  | find x => (sets.find x).2
  | union a b => sets.union a b

end Call

/-- The sets after calls one after another. -/
def run (sets : DisjointSets) (calls : List Call) : DisjointSets :=
  calls.foldl Call.apply sets

/-- Elements that the joins among some calls connect. -/
def Connected (calls : List Call) : Nat → Nat → Prop :=
  Relation.EqvGen fun a b => .union a b ∈ calls

section Runs

variable {sets : DisjointSets} {n : Nat} {edges : Nat → Nat → Prop}

theorem Represents.apply (h : Represents sets n edges) {call : Call} (hCall : call.Within n) :
    Represents (call.apply sets) n fun a b => edges a b ∨ .union a b = call := by
  cases call with
  | find x => simpa [Call.apply] using h.find hCall
  | union a b => simpa [Call.apply] using h.union hCall.1 hCall.2

theorem Weighted.apply (h : Weighted sets) (hSets : WellFormed sets.parent) {call : Call}
    (hCall : call.Within sets.parent.size) : Weighted (call.apply sets) := by
  cases call with
  | find x => exact h.find hSets hCall
  | union a b => exact h.union hSets hCall.1 hCall.2

/-- Calls add the edges of their joins, and sizes stay right. -/
theorem represents_run (h : Represents sets n edges) (hWeighted : Weighted sets)
    {calls : List Call} (hCalls : ∀ call ∈ calls, call.Within n) :
    Represents (sets.run calls) n (fun a b => edges a b ∨ .union a b ∈ calls) ∧
      Weighted (sets.run calls) := by
  induction calls generalizing sets edges with
  | nil => simpa [run] using ⟨h, hWeighted⟩
  | cons call rest ih =>
      obtain ⟨hCall, hRest⟩ := List.forall_mem_cons.mp hCalls
      have hStep := hWeighted.apply h.wellFormed (h.size_eq.symm ▸ hCall)
      have hRun := ih (h.apply hCall) hStep hRest
      simpa only [run, List.foldl_cons, List.mem_cons, or_assoc] using hRun

end Runs

open Classical in
/-- Disjoint sets of the numbers below `n` in good order, whose classes are those of a relation.
Parents are elements and lead round in no circle. A walk to a root comes to its end, and leaves
every element its root. Elements have one root exactly when they are related, and a root knows how
many elements its class has. -/
structure Partitions (sets : DisjointSets) (n : Nat) (related : Nat → Nat → Prop) : Prop where
  size_eq : sets.parent.size = n
  parent_lt : ∀ x < n, ∃ p < n, sets.parent[x]? = some p
  acyclic : ∀ x, ¬Relation.TransGen (fun y p : Nat => sets.parent[y]? = some p ∧ p ≠ y) x x
  find_walk : ∀ x < n, Walk sets.parent x (sets.find x).1 (sets.find x).2.parent
  find_root : ∀ x < n, LeadsTo sets.parent x (sets.find x).1 ∧
    sets.parent[(sets.find x).1]? = some (sets.find x).1 ∧
    (sets.find x).2.parent[(sets.find x).1]? = some (sets.find x).1
  find_keeps : ∀ x < n, ∀ y r, LeadsTo (sets.find x).2.parent y r ↔ LeadsTo sets.parent y r
  -- The second root is looked for in the sets that the first search leaves.
  find_eq_iff : ∀ a < n, ∀ b < n, (sets.find a).1 = ((sets.find a).2.find b).1 ↔ related a b
  size_root : ∀ r < n, sets.parent[r]? = some r →
    sets.size[r]? = some ((Finset.range n).filter fun x => related x r).card
  sum_sizes : ∑ r ∈ Finset.range n with sets.parent[r]? = some r, sets.size.getD r 0 = n

section Assembly

variable {sets : DisjointSets} {n : Nat} {edges : Nat → Nat → Prop}

/-- What the invariants of a run come to. -/
theorem Represents.partitions (h : Represents sets n edges) (hWeighted : Weighted sets) :
    Partitions sets n (Relation.EqvGen edges) := by
  classical
  have hSets := h.wellFormed
  obtain rfl := h.size_eq
  refine ⟨rfl, ?_, hSets.not_cycle, fun x hx => find_walk hSets hx, ?_, ?_, ?_, ?_, ?_⟩
  · intro x hx
    exact ⟨_, hSets.up_lt x hx, getElem?_eq_some_up hx⟩
  · intro x hx
    have hRoot := find_leadsTo hSets x
    have hShort := find_shortened hSets hx
    refine ⟨hRoot, hRoot.getElem?_eq hSets hx, ?_⟩
    exact (hShort.leadsTo _ _ hRoot).getElem?_eq (hShort.wellFormed hSets)
      (hShort.size_eq.symm ▸ hx)
  · intro x hx y r
    exact (find_shortened hSets hx).leadsTo_iff hSets
  · intro a ha b _
    rw [h.find_find ha]
    exact h.find_eq_iff
  · intro r hr hRoot
    have hUp := (getElem?_eq_self_iff hr).mp hRoot
    have hClass : weight sets.parent r =
        ((Finset.range sets.parent.size).filter fun x => Relation.EqvGen edges x r).card :=
      weight_eq_card rfl fun x => (h.same_iff_leadsTo (.root hUp)).symm
    rw [hWeighted.weight_eq r hr hUp, hClass]
  · calc ∑ r ∈ Finset.range sets.parent.size with sets.parent[r]? = some r, sets.size.getD r 0
        = ∑ r ∈ Finset.range sets.parent.size with up sets.parent r = r, weight sets.parent r := by
          apply Finset.sum_congr
          · apply Finset.filter_congr
            intro r hr
            exact getElem?_eq_self_iff (Finset.mem_range.mp hr)
          · intro r hr
            rw [Finset.mem_filter, Finset.mem_range] at hr
            exact hWeighted.getD_eq hr.1 hr.2
      _ = sets.parent.size := sum_weight hSets

end Assembly

/-- Whatever calls are made on the elements of singletons, the sets stay in order, and they are the
classes of what the joins connected so far. -/
theorem run_partitions (n : Nat) (calls : List Call) (hCalls : ∀ call ∈ calls, call.Within n) :
    Partitions ((singletons n).run calls) n (Connected calls) := by
  obtain ⟨hRun, hWeighted⟩ :=
    represents_run (Represents.singletons n) (Weighted.singletons n) hCalls
  simp only [false_or] at hRun
  exact hRun.partitions hWeighted

/-- Two chains are built up and joined, with walks to roots in between. -/
def interleaved : List Call :=
  [.union 0 1, .union 2 3, .find 3, .union 1 3, .union 4 5, .find 5, .union 5 0, .union 4 3, .find 3]

theorem interleaved_partitions :
    (∀ call ∈ interleaved, call.Within 7) ∧
      Partitions ((singletons 7).run interleaved) 7 (Connected interleaved) := by
  have hCalls : ∀ call ∈ interleaved, call.Within 7 := by decide
  exact ⟨hCalls, run_partitions 7 interleaved hCalls⟩

end DatasetAudit.DisjointSets

namespace DatasetAudit.Near

open DisjointSets

section Search

variable {hashes : List UInt64} {threshold : Nat}

/-- Looking at a pair of positions takes two searches for roots, and a join if the hashes are
close. -/
theorem exists_link_eq_run (threshold : Nat) (sets : DisjointSets) {p q : Nat}
    (hp : p < hashes.length) (hq : q < hashes.length) :
    ∃ calls : List Call, (∀ call ∈ calls, call.Within hashes.length) ∧
      link hashes.toArray threshold sets (p, q) = sets.run calls := by
  rw [link]
  dsimp only
  split
  · exact ⟨[.find p, .find q], by simp [Call.Within, hp, hq], rfl⟩
  · split
    · exact ⟨[.find p, .find q, .union p q], by simp [Call.Within, hp, hq], rfl⟩
    · exact ⟨[.find p, .find q], by simp [Call.Within, hp, hq], rfl⟩

theorem exists_links_eq_run (threshold : Nat) (sets : DisjointSets) {pairs : List (Nat × Nat)}
    (hPairs : ∀ pair ∈ pairs, pair.1 < hashes.length ∧ pair.2 < hashes.length) :
    ∃ calls : List Call, (∀ call ∈ calls, call.Within hashes.length) ∧
      pairs.foldl (link hashes.toArray threshold) sets = sets.run calls := by
  induction pairs generalizing sets with
  | nil => exact ⟨[], by simp, rfl⟩
  | cons pair rest ih =>
      obtain ⟨hPair, hRest⟩ := List.forall_mem_cons.mp hPairs
      obtain ⟨first, hFirst, hLink⟩ := exists_link_eq_run threshold sets hPair.1 hPair.2
      obtain ⟨others, hOthers, hLinks⟩ := ih (link hashes.toArray threshold sets pair) hRest
      refine ⟨first ++ others, List.forall_mem_append.mpr ⟨hFirst, hOthers⟩, ?_⟩
      rw [List.foldl_cons, hLinks, run, run, List.foldl_append]
      exact congrArg (others.foldl Call.apply ·) hLink

/-- The search for close hashes leaves the positions in order, in the classes that chains of close
hashes join, and every root with the size of its class. -/
theorem linkedSets_partitions (hashes : List UInt64) (threshold : Nat) :
    Partitions (linkedSets hashes threshold) hashes.length (JoinedAt hashes threshold) := by
  have hPairs : ∀ pair ∈ candidates hashes threshold,
      pair.1 < hashes.length ∧ pair.2 < hashes.length := fun _ => lt_length_of_mem_candidates
  obtain ⟨calls, hCalls, hRun⟩ :=
    exists_links_eq_run threshold (singletons hashes.length) hPairs
  rw [← linkedSets_eq_foldl] at hRun
  obtain ⟨hSets, hWeighted⟩ :=
    represents_run (Represents.singletons hashes.length) (Weighted.singletons _) hCalls
  rw [← hRun] at hSets hWeighted
  convert hSets.partitions hWeighted using 1
  funext p q
  exact propext (linkedSets_find_eq_iff.symm.trans hSets.find_eq_iff)

end Search

end DatasetAudit.Near
