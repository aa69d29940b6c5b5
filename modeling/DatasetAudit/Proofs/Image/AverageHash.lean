import DatasetAudit.Proofs.Decimal.Dyadic
import DatasetAudit.Proofs.Image.Hamming

/-! The average hash, bit by bit. Every shade pushes one bit in from the right, so the first shade of
a picture ends up in the highest place. A bit is set if its shade is at or above the mean, which whole
numbers and floats decide alike. What is brighter as a whole keeps its hash, and two hashes differ
where the pictures lie on different sides of their means. -/

namespace DatasetAudit

section Bits

variable {α : Type}

/-- A bit that is pushed in takes the lowest place, and the others move up by one. -/
theorem bitAt_push (bits : UInt64) (bit : Bool) {place : Nat} (h : place < 64) :
    bitAt ((bits <<< 1) ||| bit.toUInt64) place =
      if place = 0 then bit else bitAt bits (place - 1) := by
  have hBit : bit.toUInt64.toNat = bit.toNat := by
    cases bit <;> rfl
  rw [bitAt_eq_testBit, bitAt_eq_testBit, UInt64.toNat_or, hBit, Nat.testBit_or,
    UInt64.toNat_shiftLeft]
  change ((bits.toNat <<< 1 % 2 ^ 64).testBit place || _) = _
  rw [Nat.testBit_mod_two_pow, Nat.testBit_shiftLeft, Nat.testBit_bool_toNat]
  split
  · rename_i hZero
    simp [hZero]
  · rename_i hPos
    have hGe : place ≥ 1 := Nat.one_le_iff_ne_zero.mpr hPos
    simp [hPos, hGe, h]

/-- The items of a list are found at their places, counted from the end of the list. -/
theorem bitAt_foldl (f : α → Bool) (start : UInt64) {xs : List α} {i : Nat} (hi : i < xs.length)
    (hLength : xs.length ≤ 64) :
    bitAt (xs.foldl (fun bits x => (bits <<< 1) ||| (f x).toUInt64) start) (xs.length - 1 - i) =
      f xs[i] := by
  -- The last item of the list is the one that was pushed in last.
  induction xs using List.reverseRecOn with
  | nil => exact absurd hi (Nat.not_lt_zero i)
  | append_singleton xs x ih =>
      rw [List.length_append, List.length_singleton] at hi hLength
      rw [List.foldl_append, List.foldl_cons, List.foldl_nil, bitAt_push _ _ (by simp; omega)]
      rcases Nat.lt_succ_iff_lt_or_eq.mp hi with hLt | rfl
      · have hPlace : (xs ++ [x]).length - 1 - i - 1 = xs.length - 1 - i := by
          simp
          omega
        rw [if_neg (by simp; omega), hPlace, ih hLt (by omega), List.getElem_append_left hLt]
      · simp

theorem eq_of_bits {a b : UInt64} (h : ∀ i : Fin 64, bitAt a (63 - i) = bitAt b (63 - i)) :
    a = b := by
  apply eq_of_bitAt_eq
  intro place hPlace
  have hBack : 63 - (63 - place) = place := by omega
  have hBit := h ⟨63 - place, by omega⟩
  simpa only [hBack] using hBit

theorem bitAt_zero (place : Nat) : bitAt 0 place = false :=
  BitVec.getLsbD_zero

theorem bitAt_ones {place : Nat} (h : place < 64) : bitAt 0xFFFFFFFFFFFFFFFF place = true := by
  have hOnes : (0xFFFFFFFFFFFFFFFF : UInt64).toBitVec = BitVec.allOnes 64 := rfl
  rw [bitAt, hOnes, BitVec.getLsbD_allOnes, decide_eq_true h]

/-- The distance counted from the highest place. -/
theorem hamming_eq_card (a b : UInt64) : hamming a b =
    (Finset.univ.filter fun i : Fin 64 => bitAt a (63 - i) ≠ bitAt b (63 - i)).card := by
  have hRange : hamming a b =
      ((Finset.range 64).filter fun place => bitAt a place ≠ bitAt b place).card := by
    have hBne (x y : Bool) : (x != y) = decide (x ≠ y) := by
      cases x <;> cases y <;> rfl
    simp only [hamming_eq_countP, List.countP_eq_length_filter, hBne]
    rfl
  rw [hRange]
  symm
  apply Finset.card_bij fun i _ => 63 - i.val
  · intro i hi
    rw [Finset.mem_filter] at hi ⊢
    exact ⟨Finset.mem_range.mpr (by omega), hi.2⟩
  · intro i _ j _ hPlaces
    omega
  · intro place hPlace
    rw [Finset.mem_filter, Finset.mem_range] at hPlace
    have hBack : 63 - (63 - place) = place := by omega
    refine ⟨⟨63 - place, by omega⟩, ?_, hBack⟩
    rw [Finset.mem_filter, hBack]
    exact ⟨Finset.mem_univ _, hPlace.2⟩

end Bits

namespace Grid

/-- The shade at a place is at or above the mean of all shades, in whole numbers. -/
def AtLeastMean (grid : Grid) (i : Fin 64) : Prop :=
  ∑ j : Fin 64, grid[j].toNat ≤ 64 * grid[i].toNat

instance (grid : Grid) : DecidablePred grid.AtLeastMean := fun i =>
  inferInstanceAs (Decidable (∑ j : Fin 64, grid[j].toNat ≤ 64 * grid[i].toNat))

variable {p q : Grid}

section Sum

theorem toList_eq_ofFn (p : Grid) : p.toList = List.ofFn fun i : Fin 64 => p[i] := by
  apply List.ext_getElem
  · simp
  · intro i h h'
    rw [List.getElem_ofFn, Vector.getElem_toList]
    rfl

/-- The sum of the shades fits into the machine integer that it is taken in. -/
theorem toNat_sum (p : Grid) : p.sum.toNat = ∑ j : Fin 64, p[j].toNat := by
  have hMod (shades : List UInt8) (start : UInt32) :
      (shades.foldl (fun sum shade => sum + shade.toUInt32) start).toNat =
        (start.toNat + (shades.map UInt8.toNat).sum) % 2 ^ 32 := by
    induction shades generalizing start with
    | nil => simp
    | cons shade rest ih =>
        rw [List.foldl_cons, ih, UInt32.toNat_add, List.map_cons, List.sum_cons, ← Nat.add_assoc]
        simp
  have hSum : (p.toList.map UInt8.toNat).sum = ∑ j : Fin 64, p[j].toNat := by
    rw [toList_eq_ofFn, List.map_ofFn, List.sum_ofFn]
    rfl
  have hLe : ∑ j : Fin 64, p[j].toNat ≤ 64 * 255 :=
    calc ∑ j : Fin 64, p[j].toNat ≤ ∑ _j : Fin 64, 255 :=
          Finset.sum_le_sum fun j _ => Nat.le_of_lt_succ p[j].toNat_lt
      _ = 64 * 255 := by simp
  rw [Grid.sum, hMod, hSum, UInt32.toNat_zero, Nat.zero_add]
  exact Nat.mod_eq_of_lt (by omega)

end Sum

/-- The mean is an exact float, so floats decide as whole numbers do. -/
theorem mean_le_iff (p : Grid) (i : Fin 64) : p.mean ≤ p[i].toFloat ↔ p.AtLeastMean i := by
  rw [mean, Binary64.div_le_toFloat_iff, toNat_sum]
  rfl

theorem bitAt_averageHash (p : Grid) (i : Fin 64) :
    bitAt p.averageHash (63 - i) = true ↔ p.AtLeastMean i := by
  have hLength : p.toList.length = 64 := p.length_toList
  have hPlace : i < p.toList.length := hLength.symm ▸ i.isLt
  have hBit := bitAt_foldl p.isBright 0 hPlace hLength.le
  simp only [hLength] at hBit
  rw [averageHash, hBit, isBright, decide_eq_true_iff]
  exact p.mean_le_iff i

/-- The two sides of all comparisons with the mean add up to the same. -/
theorem sum_sides (p : Grid) :
    ∑ _i : Fin 64, ∑ j : Fin 64, p[j].toNat = ∑ i : Fin 64, 64 * p[i].toNat := by
  rw [← Finset.mul_sum]
  simp

/-- Some shade is at or above the mean. -/
theorem exists_atLeastMean (p : Grid) : ∃ i, p.AtLeastMean i := by
  obtain ⟨i, -, hLe⟩ := Finset.exists_le_of_sum_le Finset.univ_nonempty p.sum_sides.le
  exact ⟨i, hLe⟩

/-- All shades are at or above the mean only if they are equal. -/
theorem forall_atLeastMean_iff : (∀ i, p.AtLeastMean i) ↔ ∀ i j : Fin 64, p[i] = p[j] := by
  constructor
  · intro hAll
    have hEach := (Finset.sum_eq_sum_iff_of_le fun i _ => hAll i).mp p.sum_sides
    intro i j
    have hI := hEach i (Finset.mem_univ i)
    have hJ := hEach j (Finset.mem_univ j)
    apply UInt8.toNat_inj.mp
    omega
  · intro hEqual i
    rw [AtLeastMean, Finset.sum_congr rfl fun j _ => congrArg UInt8.toNat (hEqual j i)]
    simp

theorem averageHash_ne_zero (p : Grid) : p.averageHash ≠ 0 := by
  obtain ⟨i, hMean⟩ := p.exists_atLeastMean
  intro hZero
  have hBit := (p.bitAt_averageHash i).mpr hMean
  rw [hZero, bitAt_zero] at hBit
  exact Bool.noConfusion hBit

theorem averageHash_eq_ones_iff :
    p.averageHash = 0xFFFFFFFFFFFFFFFF ↔ ∀ i j : Fin 64, p[i] = p[j] := by
  rw [← forall_atLeastMean_iff]
  constructor
  · intro hOnes i
    rw [← bitAt_averageHash, hOnes, bitAt_ones (by omega)]
  · intro hAll
    apply eq_of_bits
    intro i
    rw [(p.bitAt_averageHash i).mpr (hAll i), bitAt_ones (by omega)]

/-- Pictures have one hash if the same shades lie at or above their means. -/
theorem averageHash_congr (h : ∀ i, p.AtLeastMean i ↔ q.AtLeastMean i) :
    p.averageHash = q.averageHash := by
  apply eq_of_bits
  intro i
  rw [Bool.eq_iff_iff, bitAt_averageHash, bitAt_averageHash]
  exact h i

/-- The mean of a brighter picture is brighter by as much. -/
theorem averageHash_brighter {c : UInt8} (h : ∀ i : Fin 64, p[i].toNat + c.toNat ≤ 255) :
    Grid.averageHash (p.map (· + c)) = p.averageHash := by
  apply averageHash_congr
  intro i
  have hShade (j : Fin 64) : (p.map (· + c))[j].toNat = p[j].toNat + c.toNat := by
    have hLe := h j
    have hGet : (p.map (· + c))[j] = p[j] + c := p.getElem_map _ j.isLt
    rw [hGet, UInt8.toNat_add, Nat.mod_eq_of_lt (by omega)]
  simp only [AtLeastMean, hShade, Finset.sum_add_distrib, Finset.sum_const, Finset.card_univ,
    Fintype.card_fin, smul_eq_mul]
  omega

theorem hamming_averageHash (p q : Grid) : hamming p.averageHash q.averageHash =
    (Finset.univ.filter fun i => ¬(p.AtLeastMean i ↔ q.AtLeastMean i)).card := by
  rw [hamming_eq_card]
  apply congrArg Finset.card
  apply Finset.filter_congr
  intro i _
  rw [ne_eq, Bool.eq_iff_iff, bitAt_averageHash, bitAt_averageHash]

/-- The average hash of a picture, in whole numbers only. -/
structure MarksMean (grid : Grid) : Prop where
  /-- The bits are the comparisons with the mean, from the highest place to the lowest. -/
  bit : ∀ i : Fin 64, bitAt grid.averageHash (63 - i) = true ↔ grid.AtLeastMean i
  /-- A comparison of floats comes out the same. -/
  float : ∀ i : Fin 64, grid.mean ≤ grid[i].toFloat ↔ grid.AtLeastMean i
  ne_zero : grid.averageHash ≠ 0
  ones : grid.averageHash = 0xFFFFFFFFFFFFFFFF ↔ ∀ i j : Fin 64, grid[i] = grid[j]
  brighter : ∀ c : UInt8, (∀ i : Fin 64, grid[i].toNat + c.toNat ≤ 255) →
    Grid.averageHash (grid.map (· + c)) = grid.averageHash
  distance : ∀ other : Grid, hamming grid.averageHash other.averageHash =
    (Finset.univ.filter fun i => ¬(grid.AtLeastMean i ↔ other.AtLeastMean i)).card

/-- Every bit of an average hash says whether its shade is at or above the mean. So no hash is zero,
only pictures of one shade have all bits, a brighter picture has the same hash, and the distance
counts the shades that lie on different sides. -/
theorem averageHash_marksMean (p : Grid) : p.MarksMean where
  bit := p.bitAt_averageHash
  float := p.mean_le_iff
  ne_zero := p.averageHash_ne_zero
  ones := averageHash_eq_ones_iff
  brighter _ := averageHash_brighter
  distance := hamming_averageHash p

/-- A picture whose lower half is bright. -/
def halves : Grid :=
  Vector.ofFn fun i => if i.val < 32 then 10 else 200

/-- The lower half of the picture has the lower bits, also when it is brighter by the most that fits. -/
theorem halves_marksMean : halves.averageHash = 0x00000000FFFFFFFF ∧
    Grid.averageHash (halves.map (· + 55)) = halves.averageHash := by
  have hMarks := averageHash_marksMean halves
  have hLower : ∀ i : Fin 64,
      halves.AtLeastMean i ↔ bitAt 0x00000000FFFFFFFF (63 - i) = true := by
    decide +kernel
  refine ⟨eq_of_bits fun i => ?_, hMarks.brighter 55 (by decide)⟩
  rw [Bool.eq_iff_iff, hMarks.bit, hLower]

end Grid

end DatasetAudit
