import DatasetAudit.Proofs.Cluster.Bands
import Mathlib.Data.List.Nodup

/-! The bands as a cut of all bits of a hash, and the buckets of a band as a partition of all
positions. Each band starts where the one before it stops, and none is empty as long as there are no
more bands than bits. The bits of a band are taken by a shift and a mask, both of which stay within
a hash. -/

namespace DatasetAudit.Bands

section Cut

theorem cut_zero (threshold : Nat) : cut threshold 0 = 0 := by
  rw [cut, Nat.zero_mul, Nat.zero_div]

/-- There are at least as many bits as bands, so every band has a bit. -/
theorem cut_lt_succ {threshold : Nat} (h : threshold < hashBits) (k : Nat) :
    cut threshold k < cut threshold (k + 1) := by
  calc cut threshold k < cut threshold k + 1 := Nat.lt_succ_self _
    _ = (k * hashBits + (threshold + 1)) / (threshold + 1) :=
        (Nat.add_div_right _ (Nat.succ_pos threshold)).symm
    _ ≤ cut threshold (k + 1) := by
        apply Nat.div_le_div_right
        rw [Nat.succ_mul]
        exact Nat.add_le_add_left h _

theorem cut_le_hashBits {threshold k : Nat} (h : k ≤ threshold + 1) :
    cut threshold k ≤ hashBits := by
  rw [← cut_last threshold]
  exact Nat.div_le_div_right (Nat.mul_le_mul_right _ h)

theorem ofThreshold_eq_map (threshold : Nat) : ofThreshold threshold =
    (List.range (threshold + 1)).map fun k => ⟨cut threshold k, cut threshold (k + 1)⟩ := rfl

/-- A place below the `n`-th cut lies in one of the bands before it, and another place in none. The
induction is on the number of bands. -/
theorem countP_cut (threshold place n : Nat) :
    (List.range n).countP (fun k => cut threshold k ≤ place ∧ place < cut threshold (k + 1)) =
      if place < cut threshold n then 1 else 0 := by
  induction n with
  | zero => simp [cut_zero]
  | succ n ih =>
      have hMono := cut_le_succ threshold n
      rw [List.range_succ, List.countP_append, ih, List.countP_singleton]
      simp only [decide_eq_true_eq]
      split <;> split <;> split <;> omega

end Cut

/-- A list of bands cuts all bits of a hash, without a gap and without a bit in two bands. -/
structure Cuts (bands : List Band) : Prop where
  nonempty : ∀ band ∈ bands, band.start < band.stop
  consecutive : bands.map (·.start) ++ [hashBits] = 0 :: bands.map (·.stop)
  once : ∀ place < hashBits,
    bands.countP (fun band => band.start ≤ place ∧ place < band.stop) = 1

theorem cuts_ofThreshold {threshold : Nat} (h : threshold < hashBits) :
    Cuts (ofThreshold threshold) := by
  refine ⟨?_, ?_, ?_⟩
  · intro band hBand
    obtain ⟨k, _, rfl⟩ := mem_ofThreshold.mp hBand
    exact cut_lt_succ h k
  · have hStarts : (ofThreshold threshold).map (·.start) =
        (List.range (threshold + 1)).map (cut threshold) := by
      rw [ofThreshold_eq_map, List.map_map]
      rfl
    have hStops : (ofThreshold threshold).map (·.stop) =
        (List.range (threshold + 1)).map fun k => cut threshold (k + 1) := by
      rw [ofThreshold_eq_map, List.map_map]
      rfl
    -- Both sides list the cuts from the first to the last.
    calc (ofThreshold threshold).map (·.start) ++ [hashBits]
        = (List.range (threshold + 2)).map (cut threshold) := by
          rw [hStarts, ← cut_last threshold, List.range_succ (n := threshold + 1), List.map_append]
          rfl
      _ = 0 :: (ofThreshold threshold).map (·.stop) := by
          rw [hStops, List.range_succ_eq_map, List.map_cons, List.map_map, cut_zero]
          rfl
  · intro place hPlace
    rw [ofThreshold_eq_map, List.countP_map]
    refine (countP_cut threshold place (threshold + 1)).trans ?_
    rw [cut_last, if_pos hPlace]

example : ofThreshold 4 = [⟨0, 12⟩, ⟨12, 25⟩, ⟨25, 38⟩, ⟨38, 51⟩, ⟨51, 64⟩] := by decide

/-- The mask for the bits of a band after they have been moved to the lowest places. A band that is
as wide as a hash takes all of them; a shift by that many places would lead out of the hash. -/
def Band.mask (band : Band) : UInt64 :=
  if hashBits ≤ band.stop - band.start then 0xFFFFFFFFFFFFFFFF
  else (1 <<< UInt64.ofNat (band.stop - band.start)) - 1

/-- A band lies within a hash, its mask has as many bits as the band, and its value is what a shift
by less than the width of a hash and the mask give. -/
structure Band.Fits (band : Band) : Prop where
  start_lt : band.start < hashBits
  stop_le : band.stop ≤ hashBits
  mask : ∀ place, bitAt band.mask place = decide (place < band.stop - band.start)
  value : ∀ hash, band.value hash = ((hash >>> UInt64.ofNat band.start) &&& band.mask).toNat

section Mask

variable {band : Band}

theorem toNat_ofNat_mod {n : Nat} (h : n < hashBits) : (UInt64.ofNat n).toNat % 64 = n := by
  have hSmall : n < UInt64.size := Nat.lt_trans h (by decide)
  rw [UInt64.toNat_ofNat', Nat.mod_eq_of_lt hSmall]
  exact Nat.mod_eq_of_lt h

theorem Band.toNat_mask (h : band.stop ≤ hashBits) :
    band.mask.toNat = 1 <<< (band.stop - band.start) - 1 := by
  rw [Band.mask]
  split
  · rename_i hFull
    have hWidth : band.stop - band.start = 64 := by
      rw [hashBits] at h hFull
      omega
    rw [hWidth]
    rfl
  · rename_i hNarrow
    have hWidth : band.stop - band.start < hashBits := Nat.lt_of_not_le hNarrow
    generalize band.stop - band.start = width at hWidth
    have hPower : (1 <<< UInt64.ofNat width : UInt64).toNat = 1 <<< width := by
      rw [UInt64.toNat_shiftLeft, toNat_ofNat_mod hWidth]
      apply Nat.mod_eq_of_lt
      rw [UInt64.toNat_one, Nat.one_shiftLeft]
      exact Nat.pow_lt_pow_right (by decide) hWidth
    have hOne : (1 : UInt64) ≤ 1 <<< UInt64.ofNat width := by
      rw [UInt64.le_iff_toNat_le, hPower, Nat.one_shiftLeft]
      exact Nat.one_le_two_pow
    rw [UInt64.toNat_sub_of_le _ _ hOne, hPower]
    rfl

theorem Band.fits (hStart : band.start < hashBits) (hStop : band.stop ≤ hashBits) : band.Fits := by
  refine ⟨hStart, hStop, ?_, ?_⟩
  · intro place
    rw [bitAt_eq_testBit, Band.toNat_mask hStop, Nat.one_shiftLeft, Nat.testBit_two_pow_sub_one]
  · intro hash
    rw [UInt64.toNat_and, UInt64.toNat_shiftRight, toNat_ofNat_mod hStart, Band.toNat_mask hStop,
      Nat.one_shiftLeft, Nat.and_two_pow_sub_one_eq_mod, Band.value, Nat.one_shiftLeft]

theorem fits_of_mem_ofThreshold {threshold : Nat} (h : threshold < hashBits)
    (hBand : band ∈ ofThreshold threshold) : band.Fits := by
  obtain ⟨k, hk, rfl⟩ := mem_ofThreshold.mp hBand
  have hStop := cut_le_hashBits (Nat.succ_le_succ hk)
  exact Band.fits (Nat.lt_of_lt_of_le (cut_lt_succ h k) hStop) hStop

end Mask

/-- The buckets of a band hold every position once, in ascending order. Two positions lie together
exactly when their hashes agree on the bits of the band. -/
structure Band.Sorts (band : Band) (hashes : List UInt64) : Prop where
  lt_length : ∀ bucket ∈ band.buckets hashes, ∀ position ∈ bucket, position < hashes.length
  once : ∀ position < hashes.length, (band.buckets hashes).countP (position ∈ ·) = 1
  ascending : ∀ bucket ∈ band.buckets hashes, bucket.Pairwise (· < ·)
  together : ∀ p q a b, hashes[p]? = some a → hashes[q]? = some b →
    ((∃ bucket ∈ band.buckets hashes, p ∈ bucket ∧ q ∈ bucket) ↔
      ∀ place, band.start ≤ place → place < band.stop → bitAt a place = bitAt b place)

section Sorted

variable {band : Band} {hashes : List UInt64}

/-- A position lies in the one bucket that belongs to the value of its hash. -/
theorem Band.countP_buckets {position : Nat} (h : position < hashes.length) :
    (band.buckets hashes).countP (position ∈ ·) = 1 := by
  let groups := groupByKey (fun item : UInt64 × Nat => band.value item.1) hashes.zipIdx
  let value := band.value hashes[position]
  have hHash : hashes[position]? = some hashes[position] := List.getElem?_eq_getElem h
  have hOwn : ∀ group ∈ groups,
      decide (position ∈ group.2.map (·.2)) = true ↔ (group.1 == value) = true := by
    rintro ⟨other, group⟩ hGroup
    obtain ⟨rfl, _⟩ := mem_groupByKey.mp hGroup
    rw [decide_eq_true_iff, beq_iff_eq, mem_bucket]
    simp [hHash, value, eq_comm]
  have hKeys : (groups.map (·.1)).Nodup := (groupByKey_ascending _ _).nodup
  have hMem : value ∈ groups.map (·.1) := by
    have hItem : (hashes[position], position) ∈
        hashes.zipIdx.filter fun item => band.value item.1 = value := by
      rw [List.mem_filter, List.mk_mem_zipIdx_iff_getElem?]
      exact ⟨hHash, decide_eq_true rfl⟩
    exact List.mem_map.mpr ⟨_, mem_groupByKey.mpr ⟨rfl, List.ne_nil_of_mem hItem⟩, rfl⟩
  calc (band.buckets hashes).countP (position ∈ ·)
      = groups.countP fun group => position ∈ group.2.map (·.2) := List.countP_map
    _ = groups.countP fun group => group.1 == value := List.countP_congr hOwn
    _ = (groups.map (·.1)).count value := by rw [List.count, List.countP_map]; rfl
    _ = 1 := List.count_eq_one_of_mem hKeys hMem

theorem Band.sorts (band : Band) (hashes : List UInt64) : band.Sorts hashes where
  lt_length _ hBucket _ hMem := Band.lt_length_of_mem_bucket hBucket hMem
  once _ h := Band.countP_buckets h
  ascending _ h := Band.bucket_pairwise_lt h
  together _ _ a b hp hq := (Band.exists_bucket_iff hp hq).trans (band.value_eq_iff a b)

end Sorted

/-- The buckets for a threshold that is less than the number of bits: those of as many bands as bits
may differ and one more, which cut all bits. Hashes within the threshold meet in some bucket. -/
structure Banded (hashes : List UInt64) (threshold : Nat) : Prop where
  length_bands : (ofThreshold threshold).length = threshold + 1
  cuts : Cuts (ofThreshold threshold)
  fits : ∀ band ∈ ofThreshold threshold, band.Fits
  buckets_eq : buckets hashes threshold =
    (ofThreshold threshold).flatMap fun band => band.buckets hashes
  sorts : ∀ band ∈ ofThreshold threshold, band.Sorts hashes
  meet : ∀ p q a b, hashes[p]? = some a → hashes[q]? = some b → hamming a b ≤ threshold →
    ∃ bucket ∈ buckets hashes threshold, p ∈ bucket ∧ q ∈ bucket

/-- For every list of hashes the buckets are those of bands that cut all bits, or one bucket with
all positions if as many bits may differ as there are. -/
theorem buckets_banded (hashes : List UInt64) (threshold : Nat) :
    (threshold < hashBits → Banded hashes threshold) ∧
      (hashBits ≤ threshold → buckets hashes threshold = [List.range hashes.length]) := by
  constructor
  · intro h
    refine ⟨?_, cuts_ofThreshold h, fun _ => fits_of_mem_ofThreshold h,
      if_neg (Nat.not_le_of_lt h), fun band _ => band.sorts hashes, ?_⟩
    · rw [ofThreshold, List.length_map, List.length_range]
    · intro p q a b hp hq hLE
      exact exists_bucket hp hq hLE
  · intro h
    exact if_pos h

/-- Hashes that are far from each other, and two that are not. -/
def scattered : List UInt64 := [0, 0xFF, 0xFFFFFFFFFFFFFFFF, 0xF0F]

theorem scattered_banded :
    (9 < hashBits ∧ Banded scattered 9) ∧
      hashBits ≤ 64 ∧ buckets scattered 64 = [List.range scattered.length] := by
  have hBelow : 9 < hashBits := by decide
  have hAll : hashBits ≤ 64 := by decide
  exact ⟨⟨hBelow, (buckets_banded scattered 9).1 hBelow⟩,
    hAll, (buckets_banded scattered 64).2 hAll⟩

end DatasetAudit.Bands
