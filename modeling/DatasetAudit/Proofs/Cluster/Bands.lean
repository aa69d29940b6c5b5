import DatasetAudit.Cluster.Bands
import DatasetAudit.Proofs.Grouping
import DatasetAudit.Proofs.Image.Hamming

/-! Why hashes that differ in few bits meet in a bucket. The bands cut the places of bits into one
range more than bits may differ, so some range holds no difference; hashes share the bucket of a
band exactly when they agree on its range. -/

namespace DatasetAudit.Bands

/-- Hashes have one value in a band exactly when they agree on all of its bits. -/
theorem Band.value_eq_iff (band : Band) (a b : UInt64) :
    band.value a = band.value b ↔
      ∀ place, band.start ≤ place → place < band.stop → bitAt a place = bitAt b place := by
  have hBit (hash : UInt64) (i : Nat) : (band.value hash).testBit i =
      (decide (i < band.stop - band.start) && bitAt hash (band.start + i)) := by
    rw [Band.value, Nat.one_shiftLeft, Nat.testBit_mod_two_pow, Nat.testBit_shiftRight,
      bitAt_eq_testBit]
  constructor
  · intro h place hStart hStop
    have hPlace := congrArg (fun value => value.testBit (place - band.start)) h
    have hBelow : place - band.start < band.stop - band.start := by omega
    simpa [hBit, hBelow, Nat.add_sub_cancel' hStart] using hPlace
  · intro h
    apply Nat.eq_of_testBit_eq
    intro i
    rw [hBit, hBit]
    by_cases hBelow : i < band.stop - band.start
    · simp [hBelow, h (band.start + i) (by omega) (by omega)]
    · simp [hBelow]

/-- Where the bands before the `k`-th end and the `k`-th begins. -/
def cut (threshold k : Nat) : Nat :=
  k * hashBits / (threshold + 1)

theorem cut_le_succ (threshold k : Nat) : cut threshold k ≤ cut threshold (k + 1) :=
  Nat.div_le_div_right (Nat.mul_le_mul_right _ (Nat.le_succ k))

theorem cut_last (threshold : Nat) : cut threshold (threshold + 1) = hashBits :=
  Nat.mul_div_cancel_left _ (Nat.succ_pos threshold)

theorem mem_ofThreshold {threshold : Nat} {band : Band} :
    band ∈ ofThreshold threshold ↔
      ∃ k ≤ threshold, band = ⟨cut threshold k, cut threshold (k + 1)⟩ := by
  simp only [ofThreshold, List.mem_map, List.mem_range, Nat.lt_succ_iff, cut, eq_comm]

/-- Bands that all hold a difference hold as many differences as there are bands. The induction
is on the number of bands, each adding its own range to those below the cut. -/
theorem le_countP_of_differ (threshold : Nat) (differ : Nat → Bool) (n : Nat)
    (h : ∀ k < n, ∃ place, cut threshold k ≤ place ∧ place < cut threshold (k + 1) ∧
      differ place) :
    n ≤ (List.range (cut threshold n)).countP differ := by
  induction n with
  | zero => exact Nat.zero_le _
  | succ n ih =>
      have hBefore := ih fun k hk => h k (Nat.lt_succ_of_lt hk)
      obtain ⟨place, hStart, hStop, hDiffer⟩ := h n (Nat.lt_succ_self n)
      have hWidth : cut threshold (n + 1) =
          cut threshold n + (cut threshold (n + 1) - cut threshold n) :=
        (Nat.add_sub_cancel' (cut_le_succ threshold n)).symm
      have hBand : 0 < ((List.range (cut threshold (n + 1) - cut threshold n)).map
          (cut threshold n + ·)).countP differ := by
        rw [List.countP_pos_iff]
        refine ⟨place, List.mem_map.mpr ⟨place - cut threshold n, ?_, by omega⟩, hDiffer⟩
        exact List.mem_range.mpr (by omega)
      rw [hWidth, List.range_add, List.countP_append]
      omega

/-- Hashes that differ in at most `threshold` bits agree on a whole band. -/
theorem exists_band_value_eq {threshold : Nat} {a b : UInt64} (h : hamming a b ≤ threshold) :
    ∃ band ∈ ofThreshold threshold, band.value a = band.value b := by
  apply Decidable.byContradiction
  intro hNone
  have hDiffer : ∀ k < threshold + 1, ∃ place, cut threshold k ≤ place ∧
      place < cut threshold (k + 1) ∧ (bitAt a place != bitAt b place) = true := by
    intro k hk
    apply Classical.byContradiction
    intro hAgree
    apply hNone
    refine ⟨_, mem_ofThreshold.mpr ⟨k, Nat.lt_succ_iff.mp hk, rfl⟩, ?_⟩
    rw [Band.value_eq_iff]
    intro place hStart hStop
    apply Classical.byContradiction
    intro hPlace
    exact hAgree ⟨place, hStart, hStop, by simpa using hPlace⟩
  have hCount := le_countP_of_differ threshold _ (threshold + 1) hDiffer
  rw [cut_last, hashBits, ← hamming_eq_countP] at hCount
  omega

/-- The bucket of a value holds the positions of the hashes that have it, in ascending order. -/
theorem Band.mem_buckets {band : Band} {hashes : List UInt64} {bucket : List Nat} :
    bucket ∈ band.buckets hashes ↔
      ∃ value, bucket = ((hashes.zipIdx).filter fun item => band.value item.1 = value).map (·.2) ∧
        bucket ≠ [] := by
  simp only [Band.buckets, List.mem_map, Prod.exists, mem_groupByKey]
  constructor
  · rintro ⟨value, group, ⟨rfl, hGroup⟩, rfl⟩
    exact ⟨value, rfl, by simpa using hGroup⟩
  · rintro ⟨value, rfl, hBucket⟩
    exact ⟨value, _, ⟨rfl, by simpa using hBucket⟩, rfl⟩

theorem mem_bucket (band : Band) {hashes : List UInt64} {value position : Nat} :
    position ∈ ((hashes.zipIdx).filter fun item => band.value item.1 = value).map (·.2) ↔
      ∃ hash, hashes[position]? = some hash ∧ band.value hash = value := by
  simp only [List.mem_map, List.mem_filter, Prod.exists, List.mem_zipIdx_iff_getElem?,
    decide_eq_true_eq]
  constructor
  · rintro ⟨hash, _, ⟨hHash, hValue⟩, rfl⟩
    exact ⟨hash, hHash, hValue⟩
  · rintro ⟨hash, hHash, hValue⟩
    exact ⟨hash, position, ⟨hHash, hValue⟩, rfl⟩

theorem Band.bucket_pairwise_lt {band : Band} {hashes : List UInt64} {bucket : List Nat}
    (h : bucket ∈ band.buckets hashes) : bucket.Pairwise (· < ·) := by
  obtain ⟨value, rfl, _⟩ := Band.mem_buckets.mp h
  have hAll : (hashes.zipIdx.map (·.2)).Pairwise (· < ·) := by
    rw [List.zipIdx_map_snd]
    exact List.pairwise_lt_range'
  exact hAll.sublist (List.filter_sublist.map _)

theorem Band.lt_length_of_mem_bucket {band : Band} {hashes : List UInt64} {bucket : List Nat}
    {position : Nat} (h : bucket ∈ band.buckets hashes) (hMem : position ∈ bucket) :
    position < hashes.length := by
  obtain ⟨value, rfl, _⟩ := Band.mem_buckets.mp h
  obtain ⟨hash, hHash, _⟩ := (mem_bucket band).mp hMem
  exact (List.getElem?_eq_some_iff.mp hHash).1

/-- Two positions lie in one bucket of a band exactly when their hashes have one value in it. -/
theorem Band.exists_bucket_iff {band : Band} {hashes : List UInt64} {p q : Nat} {a b : UInt64}
    (hp : hashes[p]? = some a) (hq : hashes[q]? = some b) :
    (∃ bucket ∈ band.buckets hashes, p ∈ bucket ∧ q ∈ bucket) ↔ band.value a = band.value b := by
  constructor
  · rintro ⟨bucket, hBucket, hMemP, hMemQ⟩
    obtain ⟨value, rfl, _⟩ := Band.mem_buckets.mp hBucket
    obtain ⟨x, hx, rfl⟩ := (mem_bucket band).mp hMemP
    obtain ⟨y, hy, hValue⟩ := (mem_bucket band).mp hMemQ
    obtain rfl := Option.some.inj (hp.symm.trans hx)
    obtain rfl := Option.some.inj (hq.symm.trans hy)
    exact hValue.symm
  · intro hValue
    have hMemP := (mem_bucket band).mpr ⟨a, hp, rfl⟩
    have hMemQ := (mem_bucket band).mpr ⟨b, hq, hValue.symm⟩
    exact ⟨_, Band.mem_buckets.mpr ⟨_, rfl, List.ne_nil_of_mem hMemP⟩, hMemP, hMemQ⟩

/-- Every bucket lists positions of hashes in ascending order. -/
theorem bucket_pairwise_lt {hashes : List UInt64} {threshold : Nat} {bucket : List Nat}
    (h : bucket ∈ buckets hashes threshold) : bucket.Pairwise (· < ·) := by
  rw [buckets] at h
  split at h
  · rw [List.mem_singleton.mp h]
    exact List.pairwise_lt_range
  · obtain ⟨band, _, hBucket⟩ := List.mem_flatMap.mp h
    exact Band.bucket_pairwise_lt hBucket

theorem lt_length_of_mem_bucket {hashes : List UInt64} {threshold position : Nat}
    {bucket : List Nat} (h : bucket ∈ buckets hashes threshold) (hMem : position ∈ bucket) :
    position < hashes.length := by
  rw [buckets] at h
  split at h
  · rw [List.mem_singleton.mp h] at hMem
    exact List.mem_range.mp hMem
  · obtain ⟨band, _, hBucket⟩ := List.mem_flatMap.mp h
    exact Band.lt_length_of_mem_bucket hBucket hMem

/-- No pair of close hashes is missed: some bucket holds both positions. -/
theorem exists_bucket {hashes : List UInt64} {threshold p q : Nat} {a b : UInt64}
    (hp : hashes[p]? = some a) (hq : hashes[q]? = some b) (h : hamming a b ≤ threshold) :
    ∃ bucket ∈ buckets hashes threshold, p ∈ bucket ∧ q ∈ bucket := by
  rw [buckets]
  split
  · refine ⟨_, List.mem_singleton_self _, ?_, ?_⟩
    · exact List.mem_range.mpr (List.getElem?_eq_some_iff.mp hp).1
    · exact List.mem_range.mpr (List.getElem?_eq_some_iff.mp hq).1
  · obtain ⟨band, hBand, hValue⟩ := exists_band_value_eq h
    obtain ⟨bucket, hBucket, hMem⟩ := (Band.exists_bucket_iff hp hq).mpr hValue
    exact ⟨bucket, List.mem_flatMap.mpr ⟨band, hBand, hBucket⟩, hMem⟩

end DatasetAudit.Bands
