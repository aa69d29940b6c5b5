import DatasetAudit.Proofs.Decimal.Finite

/-! Naturals over powers of two, as floats. A natural that fits into the significand is a float, and
so is its quotient by a power of two; dividing by one rounds nothing away, and such floats are
compared as the quotients that they are. -/

namespace DatasetAudit

namespace Binary64

open Float.Model (Format UnpackedFloat)
open Float.Model.UnpackedFloat (ExtendedMantissa Sign)

theorem shiftLeft_pos {n : Nat} (hn : 0 < n) (k : Nat) : 0 < n <<< k := by
  rw [Nat.shiftLeft_eq]
  positivity

/-- The float `n / 2 ^ k`, its significand with all of its bits. -/
def dyadic (n k : Nat) : UnpackedFloat :=
  if hn : n = 0 then .zero .positive
  else .finite .positive (n <<< (52 - n.log2)) (n.log2 - 52 - k)
    (shiftLeft_pos (Nat.pos_of_ne_zero hn) _)

variable {n m k j : Nat}

theorem dyadic_of_pos (hn : 0 < n) : dyadic n k =
    .finite .positive (n <<< (52 - n.log2)) (n.log2 - 52 - k) (shiftLeft_pos hn _) :=
  dif_neg hn.ne'

theorem log2_le_of_fits (h : n < 2 ^ 53) : n.log2 ≤ 52 :=
  Nat.le_of_lt_succ (log2_lt_of_lt (by decide) h)

theorem log2_full (hn : 0 < n) (h : n < 2 ^ 53) : (n <<< (52 - n.log2)).log2 = 52 := by
  rw [log2_shiftLeft hn]
  exact Nat.add_sub_cancel' (log2_le_of_fits h)

theorem pos_of_full (hFull : m.log2 = 52) : 0 < m := by
  rw [Nat.pos_iff_ne_zero]
  rintro rfl
  exact absurd hFull (by decide)

section Rounding

/-- Zeros that are shifted out leave nothing behind. -/
theorem repeat_shiftRightOne (m j : Nat) :
    Nat.repeat ExtendedMantissa.shiftRightOne j ⟨m <<< j, false, false⟩ = ⟨m, false, false⟩ := by
  induction j generalizing m with
  | zero => rfl
  | succ j ih =>
      have hShift : m <<< (j + 1) = (2 * m) <<< j := by
        simp only [Nat.shiftLeft_eq, Nat.pow_succ]
        ring
      rw [Nat.repeat, hShift, ih, ExtendedMantissa.shiftRightOne]
      simp

theorem shiftToTargetExponent_eq {e : Int} (hFull : m.log2 = 52) (he : -1074 ≤ e) (j : Nat) :
    UnpackedFloat.shiftToTargetExponent .binary64 (m <<< j) (e - j) .exact =
      (⟨m, false, false⟩, e) := by
  have hTarget : Format.binary64.targetExponent (Float.Model.totalExponent (m <<< j) (e - j)) = e := by
    rw [targetExponent_eq, log2_shiftLeft (pos_of_full hFull), hFull]
    omega
  rw [UnpackedFloat.shiftToTargetExponent, hTarget, UnpackedFloat.shiftToExponent]
  have hShift : (e - (e - (j : Int))).toNat = j := by omega
  rw [hShift]
  exact Prod.ext (repeat_shiftRightOne m j) (by simp)

/-- A float whose significand has all bits is rounded to itself, whatever zeros stand behind. -/
theorem roundWithAccuracy_eq {e : Int} (sign : Sign) (hm : 0 < m) (hFull : m.log2 = 52)
    (he : -1074 ≤ e) (j : Nat) :
    UnpackedFloat.roundWithAccuracy .binary64 sign (m <<< j) (e - j) .exact =
      .finite sign m e hm := by
  have hAgain := shiftToTargetExponent_eq hFull he 0
  simp only [Nat.shiftLeft_zero, Nat.cast_zero, Int.sub_zero] at hAgain
  have hRounded : (ExtendedMantissa.mk m false false).roundedMantissa = m := rfl
  simp only [UnpackedFloat.roundWithAccuracy, shiftToTargetExponent_eq hFull he j, hRounded, hAgain,
    hm.ne', dif_neg, not_false_eq_true]

end Rounding

section Operations

theorem ofNat_eq_dyadic (h : n < 2 ^ 53) : UnpackedFloat.ofNat .binary64 n = dyadic n 0 := by
  rcases Nat.eq_zero_or_pos n with rfl | hn
  · rfl
  · have hLog := log2_le_of_fits h
    have hGreater : compare (n : Int) 0 = .gt := Int.compare_eq_gt.mpr (by omega)
    have hShift : (0 - max ((n.log2 : Int) + 1 + 0 - 53) (-1074)).toNat = 52 - n.log2 := by omega
    rw [dyadic_of_pos hn, UnpackedFloat.ofNat, UnpackedFloat.ofInt, UnpackedFloat.normalize, hGreater]
    simp only [UnpackedFloat.round, UnpackedFloat.decreaseExponent, Int.toNat_natCast,
      targetExponent_eq, hShift]
    have hExponent : (0 : Int) - (52 - n.log2 : Nat) = n.log2 - 52 - (0 : Nat) := by omega
    rw [hExponent]
    have hRound := roundWithAccuracy_eq (e := n.log2 - 52 - (0 : Nat)) .positive
      (shiftLeft_pos hn (52 - n.log2)) (log2_full hn h) (by omega) 0
    simpa using hRound

theorem unpackSign_packComponents (sign : Sign) (exponent : BitVec 11) (mantissa : BitVec 52) :
    UnpackedFloat.unpackSign (UnpackedFloat.packComponents .binary64 sign exponent mantissa) =
      sign.toBitVec := by
  have hFirst : (sign.toBitVec ++ exponent ++ mantissa).getLsbD 63 = sign.toBitVec.getLsbD 0 := by
    rw [BitVec.getLsbD_append, if_neg (by decide), BitVec.getLsbD_append, if_neg (by decide)]
  apply BitVec.eq_of_getLsbD_eq
  intro i hi
  obtain rfl : i = 0 := by omega
  simp only [UnpackedFloat.unpackSign, BitVec.getLsbD_cast, BitVec.getLsbD_extractLsb]
  exact hFirst

/-- The first bit of a full significand is left out of the bits and put back. -/
theorem toNat_implicit (hFull : m.log2 = 52) : (1#1 ++ BitVec.ofNat 52 m).toNat = m := by
  have hm : m ≠ 0 := (pos_of_full hFull).ne'
  have hLow : 2 ^ 52 ≤ m := hFull ▸ Nat.log2_self_le hm
  have hHigh : m < 2 ^ 53 := (Nat.log2_lt hm).mp (by omega)
  have hBits : (BitVec.ofNat 52 m).toNat = m % 2 ^ 52 := BitVec.toNat_ofNat ..
  have hLess : m % 2 ^ 52 < 2 ^ 52 := Nat.mod_lt _ (by decide)
  rw [BitVec.toNat_append, hBits, ← Nat.shiftLeft_add_eq_or_of_lt hLess, Nat.shiftLeft_eq]
  change 1 * 2 ^ 52 + m % 2 ^ 52 = m
  omega

/-- A float is read from its bits as it was written. -/
theorem unpack_pack_dyadic (h : n < 2 ^ 53) (hk : k ≤ 64) :
    (Float.Model.pack (dyadic n k)).unpack = dyadic n k := by
  change UnpackedFloat.unpack .binary64 (UnpackedFloat.pack .binary64 (dyadic n k)) = _
  rcases Nat.eq_zero_or_pos n with rfl | hn
  · rw [dyadic, dif_pos rfl]
    rfl
  · have hBias : (Format.binary64.exponentBias : Int) = 1023 := rfl
    have hSize : Format.binary64.mantissaBits = 53 := rfl
    have hLog := log2_le_of_fits h
    have hFull := log2_full hn h
    rw [dyadic_of_pos hn]
    simp only [UnpackedFloat.pack, hBias, hSize, hFull]
    generalize hBiased : ((n.log2 : Int) - 52 - k + 1023 + _).toNat = biased
    have hExponent : (BitVec.ofNat 11 biased).toNat = biased := Nat.mod_eq_of_lt (by omega)
    have hMax : BitVec.ofNat 11 biased ≠ -1#11 := by
      intro hEq
      have hNat : biased = 2047 := hExponent.symm.trans (congrArg BitVec.toNat hEq)
      omega
    have hZero : BitVec.ofNat 11 biased ≠ 0#11 := by
      intro hEq
      have hNat : biased = 0 := hExponent.symm.trans (congrArg BitVec.toNat hEq)
      omega
    rw [if_neg (by omega), if_true]
    simp only [UnpackedFloat.unpack, UnpackedFloat.unpackMantissa_packComponents,
      UnpackedFloat.unpackExponent_packComponents, unpackSign_packComponents, if_neg hMax,
      if_neg hZero, toNat_implicit hFull, hExponent, hBias]
    congr 1
    omega

theorem dyadic_two_pow (hj : j ≤ 52) :
    dyadic (2 ^ j) 0 = .finite .positive (2 ^ 52) (j - 52) (by decide) := by
  rw [dyadic_of_pos (Nat.two_pow_pos j)]
  have hFull : 2 ^ j <<< (52 - j) = 2 ^ 52 := by
    rw [Nat.shiftLeft_eq, ← Nat.pow_add, Nat.add_sub_cancel' hj]
  simp only [Nat.log2_two_pow, hFull, Nat.cast_zero, Int.sub_zero]

/-- A power of two only moves the exponent: the quotient of the significands has one place more than
the significand, and nothing is left over. -/
theorem divCore_two_pow {e d : Int} (hFull : m.log2 = 52) (he : -1073 ≤ e - d) :
    UnpackedFloat.divCore .binary64 m e (2 ^ 52) (d - 52) = (m <<< 1, e - d - 1, .exact) := by
  have hTotal : Float.Model.totalExponent (2 ^ 52) (d - 52) = d + 1 := by
    rw [Float.Model.totalExponent, Nat.log2_two_pow]
    omega
  have hTarget : Format.binary64.targetExponent (Float.Model.totalExponent m e -
      Float.Model.totalExponent (2 ^ 52) (d - 52)) = e - d - 1 := by
    rw [hTotal, Float.Model.totalExponent, hFull]
    change max (((52 : Nat) : Int) + 1 + e - (d + 1) - 53) (-1074) = _
    omega
  have hLeast : min (e - (d - 52)) (e - d - 1) = e - d - 1 := by omega
  have hShift : (e - (d - 52) - (e - d - 1)).toNat = 53 := by omega
  have hProduct : m <<< 53 = m <<< 1 * 2 ^ 52 := by
    simp only [Nat.shiftLeft_eq]
    omega
  simp only [UnpackedFloat.divCore, hTarget, hLeast, hShift, hProduct,
    Nat.mul_div_cancel _ (Nat.two_pow_pos 52), Nat.mul_mod_left]
  rfl

theorem div_two_pow {e d : Int} (hm : 0 < m) (hFull : m.log2 = 52) (he : -1073 ≤ e - d) :
    UnpackedFloat.div .binary64 (.finite .positive m e hm)
      (.finite .positive (2 ^ 52) (d - 52) (by decide)) = .finite .positive m (e - d) hm := by
  simp only [UnpackedFloat.div, divCore_two_pow hFull he]
  exact roundWithAccuracy_eq .positive hm hFull (by omega) 1

/-- Dividing by a power of two is exact. -/
theorem div_dyadic (hn : n < 2 ^ 53) (hj : j ≤ 52) (hk : k ≤ 64) :
    UnpackedFloat.div .binary64 (dyadic n k) (dyadic (2 ^ j) 0) = dyadic n (k + j) := by
  rw [dyadic_two_pow hj]
  rcases Nat.eq_zero_or_pos n with rfl | hPos
  · rw [dyadic, dif_pos rfl, dyadic, dif_pos rfl]
    rfl
  · have hExponent : (n.log2 : Int) - 52 - (k + j : Nat) = n.log2 - 52 - k - j := by omega
    rw [dyadic_of_pos hPos, dyadic_of_pos hPos, div_two_pow _ (log2_full hPos hn) (by omega)]
    simp only [hExponent]

/-- Numbers with as many bits are compared behind the powers of two that they are multiplied with. -/
theorem mul_two_pow_le_iff {a b : Nat} (hm : 0 < m) (hn : 0 < n) (hLog : m.log2 = n.log2) :
    m * 2 ^ a ≤ n * 2 ^ b ↔ a < b ∨ a = b ∧ m ≤ n := by
  have hPlace {x c : Nat} (hx : 0 < x) : (x * 2 ^ c).log2 = x.log2 + c := by
    rw [← Nat.shiftLeft_eq, log2_shiftLeft hx]
  constructor
  · intro hLe
    have hLogs := log2_le_of_le hLe
    rw [hPlace hm, hPlace hn] at hLogs
    rcases (by omega : a < b ∨ a = b) with hLt | rfl
    · exact .inl hLt
    · exact .inr ⟨rfl, Nat.le_of_mul_le_mul_right hLe (Nat.two_pow_pos a)⟩
  · rintro (hLt | ⟨rfl, hLe⟩)
    · by_contra hNot
      have hLogs := log2_le_of_le (Nat.le_of_lt (Nat.lt_of_not_le hNot))
      rw [hPlace hm, hPlace hn] at hLogs
      omega
    · exact Nat.mul_le_mul_right _ hLe

theorem le_finite_iff {a b : Int} (hn : 0 < n) (hm : 0 < m) :
    (UnpackedFloat.finite .positive n a hn).le (.finite .positive m b hm) ↔
      a < b ∨ a = b ∧ n ≤ m := by
  simp only [UnpackedFloat.le, UnpackedFloat.compare, Option.any_some]
  rcases lt_trichotomy a b with h | rfl | h
  · simp [Int.compare_eq_lt.mpr h, h]
  · simp [Nat.isLE_compare]
  · simp [Int.compare_eq_gt.mpr h]
    omega

/-- The floats are compared as the quotients are. -/
theorem le_dyadic_iff (hn : n < 2 ^ 53) (hm : m < 2 ^ 53) :
    (dyadic n k).le (dyadic m j) ↔ n * 2 ^ j ≤ m * 2 ^ k := by
  rcases Nat.eq_zero_or_pos n with rfl | hN
  · rw [dyadic, dif_pos rfl]
    refine iff_of_true ?_ (by simp)
    unfold dyadic
    split <;> rfl
  · rcases Nat.eq_zero_or_pos m with rfl | hM
    · rw [dyadic_of_pos hN, dyadic, dif_pos rfl]
      refine iff_of_false Bool.noConfusion ?_
      have hPos := Nat.mul_pos hN (Nat.two_pow_pos j)
      omega
    · rw [dyadic_of_pos hN, dyadic_of_pos hM, le_finite_iff]
      have hScale {x c : Nat} (h : x < 2 ^ 53) :
          x <<< (52 - x.log2) * 2 ^ (x.log2 + c) = 2 ^ 52 * (x * 2 ^ c) := by
        rw [Nat.shiftLeft_eq, Nat.mul_assoc, ← Nat.pow_add, ← Nat.add_assoc,
          Nat.sub_add_cancel (log2_le_of_fits h), Nat.pow_add]
        ring
      have hFull := (log2_full hN hn).trans (log2_full hM hm).symm
      have hLe := mul_two_pow_le_iff (shiftLeft_pos hN _) (shiftLeft_pos hM _) hFull
        (a := n.log2 + j) (b := m.log2 + k)
      rw [hScale hn, hScale hm, Nat.mul_le_mul_left_iff (Nat.two_pow_pos 52)] at hLe
      rw [hLe]
      omega

end Operations

theorem unpack_of_fits (h : n < 2 ^ 53) :
    (Float.Model.pack (UnpackedFloat.ofNat .binary64 n)).unpack = dyadic n 0 := by
  rw [ofNat_eq_dyadic h, unpack_pack_dyadic h (Nat.zero_le 64)]

theorem unpack_uint32 (n : UInt32) : n.toFloat.toModel.unpack = dyadic n.toNat 0 :=
  unpack_of_fits (n.toNat_lt.trans (by decide))

theorem unpack_uint8 (n : UInt8) : n.toFloat.toModel.unpack = dyadic n.toNat 0 :=
  unpack_of_fits (n.toNat_lt.trans (by decide))

theorem unpack_sixty_four : (64 : Float).toModel.unpack = dyadic (2 ^ 6) 0 := by
  rw [dyadic_two_pow (by decide)]
  rfl

/-- A sum of sixty-four is compared with the mean as an exact number: neither the sum nor the mean is
rounded. -/
theorem div_le_toFloat_iff (n : UInt32) (p : UInt8) :
    n.toFloat / 64 ≤ p.toFloat ↔ n.toNat ≤ 64 * p.toNat := by
  have hN : n.toNat < 2 ^ 53 := n.toNat_lt.trans (by decide)
  have hP : p.toNat < 2 ^ 53 := p.toNat_lt.trans (by decide)
  have hMean : (n.toFloat / 64).toModel.unpack = dyadic n.toNat 6 := by
    change (Float.Model.pack (UnpackedFloat.div .binary64 n.toFloat.toModel.unpack
      (64 : Float).toModel.unpack)).unpack = _
    rw [unpack_uint32, unpack_sixty_four, div_dyadic hN (by decide) (by decide),
      unpack_pack_dyadic hN (by decide)]
  have hLe : n.toFloat / 64 ≤ p.toFloat ↔
      (n.toFloat / 64).toModel.unpack.le p.toFloat.toModel.unpack = true := decide_eq_true_iff
  rw [hLe, hMean, unpack_uint8, le_dyadic_iff hN hP]
  omega

end Binary64

end DatasetAudit
