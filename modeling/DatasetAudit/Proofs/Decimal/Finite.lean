import Mathlib

/-! Floats that stay finite. A float is an infinity only if its first bit stands too far to the left;
sums of places bound where the first bit of a product or a quotient stands, and rounding moves it by
one place at most. So seconds that are counted in milliseconds are finite. -/

namespace DatasetAudit

namespace Binary64

open Float.Model (Format UnpackedFloat)
open Float.Model.UnpackedFloat (Accuracy ExtendedMantissa Sign)

section Log

variable {m n k : Nat}

theorem log2_le_of_le (h : m ≤ n) : m.log2 ≤ n.log2 := by
  simp only [Nat.log2_eq_log_two]
  exact Nat.log_mono_right h

theorem log2_lt_of_lt (hk : 0 < k) (h : n < 2 ^ k) : n.log2 < k := by
  rcases Nat.eq_zero_or_pos n with rfl | hn
  · exact hk
  · exact (Nat.log2_lt hn.ne').mpr h

theorem log2_add_one_le (n : Nat) : (n + 1).log2 ≤ n.log2 + 1 := by
  rcases Nat.eq_zero_or_pos n with rfl | hn
  · decide
  · calc (n + 1).log2 ≤ (2 * n).log2 := log2_le_of_le (by omega)
      _ = n.log2 + 1 := Nat.log2_two_mul hn.ne'

theorem log2_mul_le (m n : Nat) : (m * n).log2 ≤ m.log2 + n.log2 + 1 := by
  apply Nat.le_of_lt_succ
  apply log2_lt_of_lt (by omega)
  calc m * n < 2 ^ (m.log2 + 1) * 2 ^ (n.log2 + 1) :=
        Nat.mul_lt_mul'' Nat.lt_log2_self Nat.lt_log2_self
    _ = 2 ^ (m.log2 + n.log2 + 1 + 1) := by
        rw [← Nat.pow_add]
        congr 1
        omega

theorem log2_div_pow (n k : Nat) : (n / 2 ^ k).log2 = n.log2 - k := by
  simp only [Nat.log2_eq_log_two]
  exact Nat.log_div_base_pow 2 n k

theorem log2_shiftLeft (hm : 0 < m) (k : Nat) : (m <<< k).log2 = m.log2 + k := by
  induction k with
  | zero => rfl
  | succ k ih =>
      have hPos : m <<< k ≠ 0 := by
        rw [Nat.shiftLeft_eq]
        positivity
      rw [Nat.shiftLeft_succ, Nat.log2_two_mul hPos, ih, Nat.add_assoc]

end Log

/-- A float is finite, and its first bit stands for a power of two up to `2 ^ place`. -/
def UpTo (place : Int) : UnpackedFloat → Prop
  | .zero _ => True
  | .finite _ mantissa exponent _ => mantissa.log2 + exponent ≤ place
  | _ => False

section Rounding

variable {place exponent : Int} {mantissa : Nat}

theorem mantissa_shiftRight (extended : ExtendedMantissa) (shift : Nat) :
    (extended >>> shift).mantissa = extended.mantissa / 2 ^ shift := by
  change (Nat.repeat ExtendedMantissa.shiftRightOne shift extended).mantissa = _
  induction shift with
  | zero => exact (Nat.div_one _).symm
  | succ shift ih =>
      rw [Nat.repeat, Nat.pow_succ, ← Nat.div_div_eq_div_mul, ← ih]
      rfl

theorem targetExponent_eq (mantissa : Nat) (exponent : Int) :
    Format.binary64.targetExponent (Float.Model.totalExponent mantissa exponent) =
      max (mantissa.log2 + 1 + exponent - 53) (-1074) :=
  rfl

/-- The first bit stays where it is while bits behind it are shifted out. -/
theorem place_shiftToTargetExponent (accuracy : Accuracy) (hLeast : -1074 ≤ place)
    (h : mantissa.log2 + exponent ≤ place) :
    let shifted := UnpackedFloat.shiftToTargetExponent .binary64 mantissa exponent accuracy
    shifted.1.mantissa.log2 + shifted.2 ≤ place := by
  have hInitial : (ExtendedMantissa.ofMantissaAndAccuracy mantissa accuracy).mantissa =
      mantissa := by
    unfold ExtendedMantissa.ofMantissaAndAccuracy
    split <;> rfl
  simp only [UnpackedFloat.shiftToTargetExponent, UnpackedFloat.shiftToExponent,
    mantissa_shiftRight, hInitial, targetExponent_eq, log2_div_pow]
  omega

theorem roundedMantissa_le (extended : ExtendedMantissa) :
    extended.roundedMantissa ≤ extended.mantissa + 1 := by
  unfold ExtendedMantissa.roundedMantissa Accuracy.roundToNearestEven
  split <;> omega

theorem upTo_roundWithAccuracy (sign : Sign) (accuracy : Accuracy) (hLeast : -1074 ≤ place)
    (h : mantissa.log2 + exponent ≤ place) :
    UpTo (place + 1) (.roundWithAccuracy .binary64 sign mantissa exponent accuracy) := by
  have hFirst := place_shiftToTargetExponent accuracy hLeast h
  unfold UnpackedFloat.roundWithAccuracy
  generalize UnpackedFloat.shiftToTargetExponent .binary64 mantissa exponent accuracy = first at *
  obtain ⟨extended, exponent⟩ := first
  have hRounded : extended.roundedMantissa.log2 + exponent ≤ place + 1 := by
    have hCarry := log2_add_one_le extended.mantissa
    have hLe := log2_le_of_le (roundedMantissa_le extended)
    simp only at hFirst
    omega
  have hLast := place_shiftToTargetExponent .exact (hLeast.trans (Int.le_add_one le_rfl)) hRounded
  simp only
  split
  · trivial
  · exact hLast

end Rounding

section Bits

variable {place larger : Int} {u : UnpackedFloat}

theorem UpTo.isFinite (h : UpTo place u) : u.isFinite = true := by
  cases u with
  | notANumber => exact h.elim
  | infinity sign => exact h.elim
  | zero sign => rfl
  | finite sign mantissa exponent hPos => rfl

theorem UpTo.mono (h : UpTo place u) (hLe : place ≤ larger) : UpTo larger u := by
  cases u with
  | notANumber => exact h
  | infinity sign => exact h
  | zero sign => trivial
  | finite sign mantissa exponent hPos => exact le_trans h hLe

/-- The field of the exponent says where the first bit stands; below the normal floats it is zero. -/
theorem upTo_unpack_packComponents (sign : Sign) {exponent : BitVec 11} (mantissa : BitVec 52)
    (h : exponent.toNat < 2047) : UpTo (max 1 exponent.toNat - 1023)
      (.unpack .binary64 (UnpackedFloat.packComponents .binary64 sign exponent mantissa)) := by
  have hMax : exponent ≠ -1#11 := by
    rintro rfl
    exact absurd h (by decide)
  have hBias : (Format.binary64.exponentBias : Int) = 1023 := rfl
  simp only [UnpackedFloat.unpack, UnpackedFloat.unpackMantissa_packComponents,
    UnpackedFloat.unpackExponent_packComponents, if_neg hMax]
  split
  · rename_i hZero
    split
    · trivial
    · have hLog := log2_lt_of_lt (by decide) mantissa.isLt
      simp only [UpTo, hBias, hZero, BitVec.toNat_zero]
      omega
  · rename_i hZero
    have hPos : exponent.toNat ≠ 0 := fun hNat => hZero (BitVec.eq_of_toNat_eq hNat)
    have hLog := log2_lt_of_lt (by decide) (1#1 ++ mantissa).isLt
    simp only [UpTo, hBias]
    omega

theorem UpTo.unpack_pack (h : UpTo place u) (hLeast : -1022 ≤ place) (hMost : place ≤ 971) :
    UpTo place (Float.Model.pack u).unpack := by
  have hBits (sign : Sign) (exponent : BitVec 11) (mantissa : BitVec 52)
      (hMax : exponent.toNat < 2047) (hLe : max 1 exponent.toNat - 1023 ≤ place) :
      UpTo place
        (.unpack .binary64 (UnpackedFloat.packComponents .binary64 sign exponent mantissa)) :=
    (upTo_unpack_packComponents sign mantissa hMax).mono hLe
  change UpTo place (.unpack .binary64 (UnpackedFloat.pack .binary64 u))
  cases u with
  | notANumber => exact h.elim
  | infinity sign => exact h.elim
  | zero sign => exact hBits sign 0 0 (by decide) hLeast
  | finite sign mantissa exponent hPos =>
      change mantissa.log2 + exponent ≤ place at h
      have hBias : (Format.binary64.exponentBias : Int) = 1023 := rfl
      have hSize : Format.binary64.mantissaBits = 53 := rfl
      simp only [UnpackedFloat.pack, hBias, hSize]
      generalize hBiased : (exponent + 1023 + _).toNat = biased
      rw [if_neg (by omega)]
      split
      · have hNat : (BitVec.ofNat 11 biased).toNat = biased := Nat.mod_eq_of_lt (by omega)
        exact hBits sign _ _ (by omega) (by omega)
      · exact hBits sign 0 _ (by decide) hLeast

end Bits

section Operations

variable {place place' : Int} {u v : UnpackedFloat}

theorem UpTo.neg (h : UpTo place u) : UpTo place u.neg := by
  cases u <;> exact h

theorem UpTo.mul (hu : UpTo place u) (hv : UpTo place' v) (hLeast : -1075 ≤ place + place') :
    UpTo (place + place' + 1 + 1) (u.mul .binary64 v) := by
  cases u with
  | notANumber => exact hu.elim
  | infinity sign => exact hu.elim
  | zero sign => cases v <;> trivial
  | finite sign m e hm =>
      cases v with
      | notANumber => exact hv.elim
      | infinity sign => exact hv.elim
      | zero sign => trivial
      | finite sign' n e' hn =>
          have hLog := log2_mul_le m n
          change m.log2 + e ≤ place at hu
          change n.log2 + e' ≤ place' at hv
          have hProduct : (m * n).log2 + (e + e') ≤ place + place' + 1 := by omega
          exact upTo_roundWithAccuracy _ .exact (by omega) hProduct

/-- A divisor is at least as large as its last bit. -/
theorem UpTo.div {sign' : Sign} {n : Nat} {e' : Int} {hn : 0 < n} (hu : UpTo place u)
    (hLeast : -1074 ≤ place - e') :
    UpTo (place - e' + 1) (u.div .binary64 (.finite sign' n e' hn)) := by
  cases u with
  | notANumber => exact hu.elim
  | infinity sign => exact hu.elim
  | zero sign => trivial
  | finite sign m e hm =>
      change m.log2 + e ≤ place at hu
      simp only [UnpackedFloat.div, UnpackedFloat.divCore]
      generalize hTarget : min (e - e') _ = target
      have hQuotient : ((m <<< (e - e' - target).toNat) / n).log2 + target ≤ place - e' := by
        have hLe := log2_le_of_le (Nat.div_le_self (m <<< (e - e' - target).toNat) n)
        rw [log2_shiftLeft hm] at hLe
        omega
      exact upTo_roundWithAccuracy _ _ hLeast hQuotient

end Operations

section Integers

variable {n : Nat}

theorem upTo_ofNat (h : n < 2 ^ 64) : UpTo 64 (.ofNat .binary64 n) := by
  have hLog := log2_lt_of_lt (by decide) h
  unfold UnpackedFloat.ofNat UnpackedFloat.ofInt UnpackedFloat.normalize
  split
  · rename_i hNeg
    exact absurd (Int.compare_eq_lt.mp hNeg) (by omega)
  · trivial
  · rename_i hPos
    rw [Int.compare_eq_gt] at hPos
    simp only [UnpackedFloat.round, UnpackedFloat.decreaseExponent, Int.toNat_natCast,
      targetExponent_eq]
    generalize hShift : (0 - max ((n.log2 : Int) + 1 + 0 - 53) (-1074)).toNat = shift
    have hPlace : (n <<< shift).log2 + (0 - shift) ≤ (63 : Int) := by
      rw [log2_shiftLeft (by omega)]
      omega
    exact upTo_roundWithAccuracy _ _ (by decide) hPlace

/-- A natural that fits into the significand is multiplied by one. A larger one is shifted to the
left before it is. -/
theorem upTo_natCast (h : n < 2 ^ 64) : UpTo 66 (Float.ofNat n).toModel.unpack := by
  change UpTo 66 (Float.ofScientific n false 0).toModel.unpack
  unfold Float.ofScientific
  split
  · have hNat : UpTo 64 n.toUInt64.toFloat.toModel.unpack :=
      (upTo_ofNat n.toUInt64.toNat_lt).unpack_pack (by decide) (by decide)
    have hOne : UpTo 0 Float.exactlyRepresentablePowersOfTen[0].toModel.unpack :=
      (by decide : (2 ^ 52).log2 + -52 ≤ (0 : Int))
    exact (hNat.mul hOne (by decide)).unpack_pack (by decide) (by decide)
  · rename_i hLarge
    have hPos : 0 < n := by
      rw [Nat.pos_iff_ne_zero]
      rintro rfl
      exact hLarge (by decide)
    have hTiny : ¬(0 : Int) < -(2 ^ 11 + n.log2) := by omega
    simp only [Float.Model.ofScientific, UnpackedFloat.ofScientific, Bool.false_eq_true, if_false,
      dif_neg hPos.ne', Int.ofNat_eq_natCast, Nat.cast_zero]
    rw [if_neg (by decide), if_neg hTiny, if_pos (by decide)]
    refine (@UpTo.mul 64 0 _ _ ?_ ?_ (by decide)).unpack_pack (by decide) (by decide)
    · change (n <<< Format.binary64.mantissaBits).log2 + -Format.binary64.mantissaBits ≤ (64 : Int)
      have hLog := log2_lt_of_lt (by decide) h
      rw [log2_shiftLeft hPos]
      omega
    · exact (by decide : Nat.log2 1 + 0 ≤ (0 : Int))

theorem upTo_intCast {n : Int} (h : n.natAbs < 2 ^ 64) : UpTo 66 (Float.ofInt n).toModel.unpack := by
  cases n with
  | ofNat n => exact upTo_natCast h
  | negSucc n => exact (upTo_natCast h).neg.unpack_pack (by decide) (by decide)

theorem isFinite_ofInt_div_thousand {n : Int} (h : n.natAbs < 2 ^ 64) :
    (Float.ofInt n / 1000).isFinite = true := by
  have hThousand : (1000 : Float).toModel.unpack =
      .finite .positive (1000 <<< 43) (-43) (by decide) :=
    rfl
  change (Float.Model.pack (.div .binary64 (Float.ofInt n).toModel.unpack
    (1000 : Float).toModel.unpack)).unpack.isFinite = true
  rw [hThousand]
  exact ((upTo_intCast h).div (by decide)).unpack_pack (by decide) (by decide) |>.isFinite

end Integers

end Binary64

end DatasetAudit
