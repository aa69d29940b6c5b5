import DatasetAudit.Image.AverageHash

/-! The distance between two hashes counts the places of their bits in which they differ. It is a
metric, and no two hashes are further apart than they have bits. -/

namespace DatasetAudit

/-- The bit of a hash at a place, the lowest place being zero. -/
def bitAt (hash : UInt64) (place : Nat) : Bool :=
  hash.toBitVec.getLsbD place

theorem bitAt_eq_testBit (hash : UInt64) (place : Nat) :
    bitAt hash place = hash.toNat.testBit place := by
  rw [bitAt, ← BitVec.testBit_toNat, UInt64.toNat_toBitVec]

theorem hamming_eq_countP (a b : UInt64) :
    hamming a b = (List.range 64).countP fun place => bitAt a place != bitAt b place := by
  rw [hamming, bitCount]
  congr 1
  funext place
  rw [UInt64.toBitVec_xor, BitVec.getLsbD_xor]
  rfl

theorem hamming_self (a : UInt64) : hamming a a = 0 := by
  simp [hamming_eq_countP]

theorem hamming_comm (a b : UInt64) : hamming a b = hamming b a := by
  rw [hamming, hamming, UInt64.xor_comm]

/-- Hashes are equal if all of their bits are. -/
theorem eq_of_bitAt_eq {a b : UInt64} (h : ∀ place < 64, bitAt a place = bitAt b place) : a = b := by
  rw [← UInt64.toBitVec_inj]
  exact BitVec.eq_of_getLsbD_eq h

theorem hamming_eq_zero_iff {a b : UInt64} : hamming a b = 0 ↔ a = b := by
  constructor
  · intro hZero
    apply eq_of_bitAt_eq
    intro place hPlace
    rw [hamming_eq_countP, List.countP_eq_zero] at hZero
    simpa using hZero place (List.mem_range.mpr hPlace)
  · rintro rfl
    exact hamming_self a

theorem hamming_le (a b : UInt64) : hamming a b ≤ 64 := by
  rw [hamming_eq_countP]
  exact List.countP_le_length

/-- Where two hashes differ, a third one differs from one of them. -/
theorem hamming_triangle (a b c : UInt64) : hamming a c ≤ hamming a b + hamming b c := by
  simp only [hamming_eq_countP]
  induction List.range 64 with
  | nil => exact Nat.zero_le _
  | cons place rest ih =>
      simp only [List.countP_cons]
      cases bitAt a place <;> cases bitAt b place <;> cases bitAt c place <;> simp <;> omega

/-- Distances that are the same both ways, nothing between equal items only, and never longer than
a way round. -/
structure IsMetric {α : Type} (distance : α → α → Nat) : Prop where
  symm : ∀ a b, distance a b = distance b a
  eq_zero_iff : ∀ a b, distance a b = 0 ↔ a = b
  triangle : ∀ a b c, distance a c ≤ distance a b + distance b c

theorem isMetric_hamming : IsMetric hamming where
  symm := hamming_comm
  eq_zero_iff _ _ := hamming_eq_zero_iff
  triangle := hamming_triangle

end DatasetAudit
