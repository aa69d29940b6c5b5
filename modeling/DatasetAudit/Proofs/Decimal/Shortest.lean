import DatasetAudit.Decimal.Shortest
import DatasetAudit.Proofs.Decimal.Binary64

/-! The shortest digits of a float read back as the float. Any decimal number among the reals that
round to a float reads as that float, and the search for digits stops at such a number, as the grid
with seventeen digits is finer than these reals are wide. -/

namespace DatasetAudit

namespace Decimal

open Binary64

/-- A decimal number without its sign. -/
def magnitude (x : Decimal) : ℚ :=
  x.digits * 10 ^ x.exponent

theorem tenTo_eq (n : Nat) : tenTo n = 10 ^ n := rfl

theorem tenTo_pos (n : Nat) : 0 < tenTo n := by
  rw [tenTo_eq]
  positivity

theorem ten_zpow_pos (e : Int) : (0 : ℚ) < 10 ^ e := zpow_pos (by norm_num) e

/-- A power of a base, the negative part of the exponent moved to the other side. -/
theorem zpow_split {base : ℚ} (h : base ≠ 0) (e : Int) :
    base ^ e.toNat = base ^ e * base ^ (-e).toNat := by
  rw [← zpow_natCast, ← zpow_natCast, ← zpow_add₀ h]
  congr 1
  omega

theorem tenTo_toNat (e : Int) : (tenTo e.toNat : ℚ) = 10 ^ e * tenTo (-e).toNat := by
  rw [tenTo_eq, tenTo_eq]
  push_cast
  exact zpow_split (by norm_num) e

section Reading

variable {s : Nat} {e : Int} {d : Decimal}

theorem digits_pos_of_roundsTo (h : Proper s e) (hd : RoundsTo d.magnitude s e) : 0 < d.digits := by
  have hS : (1 : ℚ) ≤ s := by exact_mod_cast h.pos
  have hLow : (0 : ℚ) < d.magnitude := by
    calc (0 : ℚ) < 1 * 2 ^ (e - 2) := mul_pos one_pos (two_zpow_pos _)
      _ ≤ d.magnitude := hd.quarters_le (by linarith [below_le s e])
  apply Nat.pos_of_ne_zero
  intro hZero
  rw [magnitude, hZero] at hLow
  simp at hLow

/-- Ten to the power of 400 is past all floats, and its inverse is below all of them. -/
theorem two_zpow_lt_ten_zpow : (2 : ℚ) ^ (1080 : Int) < 10 ^ (400 : Int) := by
  have hRoot : (2 : ℚ) ^ 108 < 10 ^ 40 := by norm_num
  calc (2 : ℚ) ^ (1080 : Int) = (2 ^ 108) ^ 10 := by rw [← pow_mul]; rfl
    _ < (10 ^ 40) ^ 10 := by gcongr
    _ = 10 ^ (400 : Int) := by rw [← pow_mul]; rfl

/-- A number that rounds to a float is not past the floats. -/
theorem exponent_le_of_roundsTo (h : Proper s e) (hd : RoundsTo d.magnitude s e) :
    d.exponent ≤ 400 := by
  by_contra hNot
  have hDigits : (1 : ℚ) ≤ d.digits := by exact_mod_cast digits_pos_of_roundsTo h hd
  have hLow : (10 : ℚ) ^ (401 : Int) ≤ d.magnitude := by
    calc (10 : ℚ) ^ (401 : Int) ≤ 10 ^ d.exponent :=
          zpow_le_zpow_right₀ (by norm_num) (by omega)
      _ ≤ d.digits * 10 ^ d.exponent := le_mul_of_one_le_left (ten_zpow_pos _).le hDigits
  have hHigh : d.magnitude ≤ 10 ^ (400 : Int) := by
    calc d.magnitude ≤ 2 ^ (e + 53) := (hd.lt h).le
      _ ≤ 2 ^ (1080 : Int) := zpow_le_zpow_right₀ (by norm_num) (by have := h.le; omega)
      _ ≤ 10 ^ (400 : Int) := two_zpow_lt_ten_zpow.le
  have hGap : (10 : ℚ) ^ (400 : Int) < 10 ^ (401 : Int) :=
    zpow_lt_zpow_right₀ (by norm_num) (by norm_num)
  exact absurd (hLow.trans hHigh) (not_le.mpr hGap)

/-- A number that rounds to a float other than zero is not below the floats. -/
theorem le_exponent_of_roundsTo (h : Proper s e) (hd : RoundsTo d.magnitude s e) :
    -401 - (d.digits.log2 : Int) ≤ d.exponent := by
  by_contra hNot
  have hS : (1 : ℚ) ≤ s := by exact_mod_cast h.pos
  have hGe := h.ge
  have hDigits : (d.digits : ℚ) ≤ 10 ^ ((d.digits.log2 : Int) + 1) := by
    calc (d.digits : ℚ) ≤ 2 ^ (d.digits.log2 + 1) := by exact_mod_cast Nat.lt_log2_self.le
      _ ≤ 10 ^ (d.digits.log2 + 1) := by gcongr; norm_num
      _ = 10 ^ ((d.digits.log2 : Int) + 1) := by
          rw [← zpow_natCast]
          norm_cast
  have hHigh : d.magnitude ≤ (10 : ℚ) ^ (-401 : Int) := by
    calc d.magnitude ≤ 10 ^ ((d.digits.log2 : Int) + 1) * 10 ^ d.exponent := by
          exact mul_le_mul_of_nonneg_right hDigits (ten_zpow_pos _).le
      _ = 10 ^ ((d.digits.log2 : Int) + 1 + d.exponent) := (zpow_add₀ (by norm_num) _ _).symm
      _ ≤ 10 ^ (-401 : Int) := zpow_le_zpow_right₀ (by norm_num) (by omega)
  have hLow : (2 : ℚ) ^ (-1076 : Int) ≤ d.magnitude := by
    calc (2 : ℚ) ^ (-1076 : Int) ≤ 1 * 2 ^ (e - 2) := by
          rw [one_mul]
          exact zpow_le_zpow_right₀ (by norm_num) (by omega)
      _ ≤ d.magnitude := hd.quarters_le (by linarith [below_le s e])
  have hGap : (10 : ℚ) ^ (-401 : Int) < 2 ^ (-1076 : Int) := by
    calc (10 : ℚ) ^ (-401 : Int) ≤ 10 ^ (-400 : Int) :=
          zpow_le_zpow_right₀ (by norm_num) (by norm_num)
      _ = (10 ^ (400 : Int))⁻¹ := zpow_neg _ _
      _ < (2 ^ (1080 : Int))⁻¹ := inv_strictAnti₀ (two_zpow_pos _) two_zpow_lt_ten_zpow
      _ = 2 ^ (-1080 : Int) := (zpow_neg _ _).symm
      _ ≤ 2 ^ (-1076 : Int) := zpow_le_zpow_right₀ (by norm_num) (by norm_num)
  exact absurd (hLow.trans hHigh) (not_le.mpr hGap)

/-- A decimal number among the reals that round to a float reads as the float. -/
theorem toFloat_eq {x : Float} {b : Binary64} (hb : ofFloat? x = some b)
    (hSign : d.negative = b.negative) (hZero : b.significand = 0 → d.digits = 0)
    (hRounds : b.significand ≠ 0 → RoundsTo d.magnitude b.significand b.exponent) :
    d.toFloat = x := by
  have hBits := toBits_of_ofFloat? hb
  rw [← hSign] at hBits
  obtain ⟨hNone, hExponent⟩ | hProper := proper_of_ofFloat? hb
  · rw [toFloat, if_pos (hZero hNone)]
    apply floatOfBits_eq
    rw [hBits, hNone, hExponent]
    simp [magnitudeBits]
  · have hRounds := hRounds hProper.pos.ne'
    have hDigits := digits_pos_of_roundsTo hProper hRounds
    have hHigh := exponent_le_of_roundsTo hProper hRounds
    have hLow := le_exponent_of_roundsTo hProper hRounds
    have hQuotient : ((d.digits * tenTo d.exponent.toNat : Nat) : ℚ) / tenTo (-d.exponent).toNat =
        d.magnitude := by
      have hPos : (0 : ℚ) < tenTo (-d.exponent).toNat := by
        exact_mod_cast tenTo_pos (-d.exponent).toNat
      rw [Nat.cast_mul, tenTo_toNat, magnitude, ← mul_assoc, mul_div_assoc, div_self hPos.ne',
        mul_one]
    rw [← hQuotient] at hRounds
    rw [toFloat, if_neg hDigits.ne', if_neg (by omega), if_neg (by omega),
      nearestBits_eq hProper (Nat.mul_pos hDigits (tenTo_pos _)) (tenTo_pos _) hRounds]
    exact floatOfBits_eq hBits

end Reading

section Search

variable {s : Nat} {e grid : Int} {tie : Tie} {k : Nat}

/-- The denominator of the interval is positive, and its numerators over it are quarters of the
unit of the float. -/
theorem interval_scale (e : Int) :
    ((1 <<< (e - 2).toNat : Nat) : ℚ) = 2 ^ (e - 2) * ((1 <<< (2 - e).toNat : Nat) : ℚ) := by
  have hNeg : 2 - e = -(e - 2) := by ring
  rw [hNeg, Nat.one_shiftLeft, Nat.one_shiftLeft]
  push_cast
  exact zpow_split (by norm_num) _

theorem interval_low (hs : 0 < s) (e : Int) : ((RoundingInterval.of s e).low : ℚ) =
    (4 * s - below s e) * 2 ^ (e - 2) * (RoundingInterval.of s e).denominator := by
  have hBelow : (if (decide (s = fractionSize) && decide (minExponent < e)) = true then 1 else 2) =
      below s e := by
    unfold below
    exact if_congr (by rw [Bool.and_eq_true, decide_eq_true_eq, decide_eq_true_eq,
      fractionSize_eq, minExponent_eq]) rfl rfl
  have hSub : below s e ≤ 4 * s := by
    unfold below
    split <;> omega
  simp only [RoundingInterval.of, hBelow]
  rw [Nat.cast_mul, Nat.cast_sub hSub, interval_scale]
  push_cast
  ring

theorem interval_high (s : Nat) (e : Int) : ((RoundingInterval.of s e).high : ℚ) =
    (4 * s + 2) * 2 ^ (e - 2) * (RoundingInterval.of s e).denominator := by
  simp only [RoundingInterval.of]
  rw [Nat.cast_mul, interval_scale]
  push_cast
  ring

theorem interval_value (s : Nat) (e : Int) : ((RoundingInterval.of s e).value : ℚ) =
    4 * s * 2 ^ (e - 2) * (RoundingInterval.of s e).denominator := by
  simp only [RoundingInterval.of]
  rw [Nat.cast_mul, interval_scale]
  push_cast
  ring

theorem interval_denominator_pos (s : Nat) (e : Int) :
    0 < (RoundingInterval.of s e).denominator := by
  simp only [RoundingInterval.of, Nat.one_shiftLeft]
  positivity

section Grid

variable {i : RoundingInterval} {m : Nat} {r : ℚ}

theorem gridScale_pos (hi : 0 < i.denominator) (grid : Int) :
    (0 : ℚ) < i.denominator * tenTo (-grid).toNat := by
  exact_mod_cast Nat.mul_pos hi (tenTo_pos _)

theorem cast_point (i : RoundingInterval) (k : Nat) (grid : Int) :
    ((k * tenTo grid.toNat * i.denominator : Nat) : ℚ) =
      k * 10 ^ grid * (i.denominator * tenTo (-grid).toNat) := by
  push_cast
  rw [tenTo_toNat]
  ring

theorem cast_numerator (hm : (m : ℚ) = r * i.denominator) (grid : Int) :
    ((m * tenTo (-grid).toNat : Nat) : ℚ) = r * (i.denominator * tenTo (-grid).toNat) := by
  rw [Nat.cast_mul, hm, mul_assoc]

/-- A real over the denominator of an interval is compared with a number on a grid. -/
theorem le_point_iff (hi : 0 < i.denominator) (hm : (m : ℚ) = r * i.denominator) :
    m * tenTo (-grid).toNat ≤ k * tenTo grid.toNat * i.denominator ↔ r ≤ k * 10 ^ grid := by
  rw [← @Nat.cast_le ℚ, cast_point, cast_numerator hm,
    mul_le_mul_iff_left₀ (gridScale_pos hi grid)]

theorem point_le_iff (hi : 0 < i.denominator) (hm : (m : ℚ) = r * i.denominator) :
    k * tenTo grid.toNat * i.denominator ≤ m * tenTo (-grid).toNat ↔ k * 10 ^ grid ≤ r := by
  rw [← @Nat.cast_le ℚ, cast_point, cast_numerator hm,
    mul_le_mul_iff_left₀ (gridScale_pos hi grid)]

/-- The value of an interval lies between the two numbers on a grid that are tried. -/
theorem value_between (hi : 0 < i.denominator) (hValue : (i.value : ℚ) = r * i.denominator)
    (hk : i.value * tenTo (-grid).toNat / (i.denominator * tenTo grid.toNat) = k) :
    k * 10 ^ grid ≤ r ∧ r < (k + 1 : Nat) * 10 ^ grid := by
  have hStep : 0 < i.denominator * tenTo grid.toNat := Nat.mul_pos hi (tenTo_pos _)
  constructor
  · rw [← point_le_iff hi hValue, mul_assoc, mul_comm (tenTo _), ← hk]
    exact Nat.div_mul_le_self _ _
  · rw [← not_le, ← point_le_iff hi hValue, not_le, mul_assoc, mul_comm (tenTo _), ← hk,
      mul_comm (_ + 1)]
    exact Nat.lt_mul_div_succ _ hStep

end Grid

/-- A number on a grid lies in the interval of a float exactly if it rounds to the float. -/
theorem holds_iff (hs : 0 < s) :
    (RoundingInterval.of s e).holds k grid = true ↔ RoundsTo (k * 10 ^ grid) s e := by
  have hDenominator := interval_denominator_pos s e
  have hLow := interval_low hs e
  have hHigh := interval_high s e
  have hClosed : (RoundingInterval.of s e).closed = (s % 2 == 0) := rfl
  unfold RoundingInterval.holds
  simp only [hClosed]
  split
  · rename_i hEven
    have hEven : s % 2 = 0 := by simpa using hEven
    rw [Bool.and_eq_true, decide_eq_true_eq, decide_eq_true_eq, le_point_iff hDenominator hLow,
      point_le_iff hDenominator hHigh]
    constructor
    · rintro ⟨hGe, hLe⟩
      exact ⟨hGe, hLe, fun hOdd => by omega⟩
    · exact fun h => ⟨h.ge, h.le⟩
  · rename_i hOdd
    have hOdd : s % 2 = 1 := by
      have : ¬s % 2 = 0 := by simpa using hOdd
      omega
    rw [Bool.and_eq_true, decide_eq_true_eq, decide_eq_true_eq, ← not_le, ← not_le,
      point_le_iff hDenominator hLow, le_point_iff hDenominator hHigh, not_le, not_le]
    exact ⟨fun ⟨hGt, hLt⟩ => .of_lt hGt hLt, fun h => h.odd hOdd⟩

theorem holds_of_onGrid? {i : RoundingInterval} (h : i.onGrid? tie grid = some k) :
    i.holds k grid = true := by
  obtain ⟨first, hGrid⟩ : ∃ first,
    i.value * tenTo (-grid).toNat / (i.denominator * tenTo grid.toNat) = first := ⟨_, rfl⟩
  unfold RoundingInterval.onGrid? at h
  simp only [hGrid] at h
  generalize (if 2 * (i.value * tenTo (-grid).toNat % (i.denominator * tenTo grid.toNat)) < _ then
    false else _ : Bool) = isUpper at h
  cases hFirst : i.holds first grid <;> cases hSecond : i.holds (first + 1) grid <;>
    cases isUpper <;> simp_all

/-- A grid finer than the reals that round to a float are wide has one of them next to the float. -/
theorem exists_onGrid? (hs : 0 < s) (tie : Tie)
    (hFine : (10 : ℚ) ^ grid < (2 + below s e) * 2 ^ (e - 2)) :
    ∃ k, (RoundingInterval.of s e).onGrid? tie grid = some k := by
  have hUnit := two_zpow_pos (e - 2)
  have hBelow := one_le_below s e
  obtain ⟨k, hk⟩ : ∃ k, (RoundingInterval.of s e).value * tenTo (-grid).toNat /
    ((RoundingInterval.of s e).denominator * tenTo grid.toNat) = k := ⟨_, rfl⟩
  obtain ⟨hLower, hUpper⟩ :=
    value_between (interval_denominator_pos s e) (interval_value s e) hk
  have hEither : (RoundingInterval.of s e).holds k grid = true ∨
      (RoundingInterval.of s e).holds (k + 1) grid = true := by
    rw [holds_iff hs, holds_iff hs]
    by_cases hFirst : (4 * s - below s e) * (2 : ℚ) ^ (e - 2) < k * 10 ^ grid
    · exact .inl (.of_lt hFirst (by nlinarith))
    · right
      push_cast at hUpper ⊢
      exact .of_lt (by nlinarith) (by nlinarith)
  unfold RoundingInterval.onGrid?
  simp only [hk]
  rcases hEither with hFirst | hSecond
  · rw [hFirst]
    split <;> simp_all
  · rw [hSecond]
    split <;> simp_all

theorem lt_ten_pow_digitCount (n : Nat) : n < 10 ^ digitCount n :=
  (Nat.length_toDigits_le_iff (by norm_num) Nat.length_toDigits_pos).mp le_rfl

theorem ten_pow_digitCount_le {n : Nat} (hn : 0 < n) : 10 ^ (digitCount n - 1) ≤ n := by
  by_contra hNot
  have hPos : 0 < digitCount n := Nat.length_toDigits_pos
  obtain hOne | hMore : digitCount n - 1 = 0 ∨ 0 < digitCount n - 1 := by omega
  · rw [hOne, pow_zero] at hNot
    omega
  · have hLe : digitCount n ≤ digitCount n - 1 :=
      (Nat.length_toDigits_le_iff (by norm_num) hMore).mpr (by omega)
    omega

/-- A quotient has its first digit at the leading exponent or before it. -/
theorem ten_zpow_leadingExponent_le {n d : Nat} (hn : 0 < n) (hd : 0 < d) :
    (10 : ℚ) ^ leadingExponent n d ≤ n / d := by
  have hD : (0 : ℚ) < d := by exact_mod_cast hd
  unfold leadingExponent
  generalize hExponent : (digitCount n : Int) - digitCount d = q
  rw [le_div_iff₀ hD]
  simp only
  split
  · rename_i h
    have hTens : (0 : ℚ) < tenTo (-q).toNat := by exact_mod_cast tenTo_pos (-q).toNat
    rw [← @Nat.cast_le ℚ, Nat.cast_mul, Nat.cast_mul, tenTo_toNat] at h
    rw [← mul_le_mul_iff_left₀ hTens]
    linarith
  · have hLow : (10 : ℚ) ^ (digitCount n - 1) ≤ n := by exact_mod_cast ten_pow_digitCount_le hn
    have hHigh : (d : ℚ) ≤ 10 ^ digitCount d := by exact_mod_cast (lt_ten_pow_digitCount d).le
    have hPos : 0 < digitCount n := Nat.length_toDigits_pos
    calc (10 : ℚ) ^ (q - 1) * d ≤ 10 ^ (q - 1) * 10 ^ digitCount d := by
          exact mul_le_mul_of_nonneg_left hHigh (ten_zpow_pos _).le
      _ = 10 ^ (digitCount n - 1) := by
          rw [← zpow_natCast, ← zpow_natCast, ← zpow_add₀ (by norm_num)]
          congr 1
          omega
      _ ≤ n := hLow

/-- Seventeen digits are enough for every float. -/
theorem exists_onGrid?_of_proper (h : Proper s e) (tie : Tie) :
    ∃ k, (RoundingInterval.of s e).onGrid? tie
      (leadingExponent (RoundingInterval.of s e).value (RoundingInterval.of s e).denominator - 16) =
        some k := by
  have hDenominator := interval_denominator_pos s e
  have hScale : (0 : ℚ) < (RoundingInterval.of s e).denominator := by exact_mod_cast hDenominator
  have hUnit := two_zpow_pos (e - 2)
  have hS : (1 : ℚ) ≤ s := by exact_mod_cast h.pos
  have hValue := interval_value s e
  have hPos : 0 < (RoundingInterval.of s e).value := by
    rw [← @Nat.cast_lt ℚ, hValue]
    positivity
  have hLead := ten_zpow_leadingExponent_le hPos hDenominator
  generalize leadingExponent _ _ = lead at hLead
  rw [hValue, mul_div_assoc, div_self hScale.ne', mul_one] at hLead
  have hSplit : (10 : ℚ) ^ lead = 10 ^ 16 * 10 ^ (lead - 16) := by
    rw [← zpow_natCast, ← zpow_add₀ (by norm_num)]
    congr 1
    omega
  rw [hSplit] at hLead
  apply exists_onGrid? h.pos
  -- Right above a power of two the interval is narrower, but its significand is the smallest too.
  have hWidth : 4 * (s : ℚ) < 10 ^ 16 * (2 + below s e) := by
    unfold below
    split
    · rename_i hLeast
      rw [hLeast.1]
      norm_num
    · have hLt : (s : ℚ) < 2 ^ 53 := by exact_mod_cast h.lt
      have hRoom : 4 * (2 : ℚ) ^ 53 < 10 ^ 16 * (2 + (2 : Nat)) := by norm_num
      linarith
  nlinarith

/-- The shortest digits of a float are among the reals that round to it. -/
theorem shortestDigits_roundsTo (h : Proper s e) (tie : Tie) :
    RoundsTo ((shortestDigits tie s e).1 * 10 ^ (shortestDigits tie s e).2) s e := by
  obtain ⟨k, hLast⟩ := exists_onGrid?_of_proper h tie
  unfold shortestDigits
  simp only
  generalize leadingExponent (RoundingInterval.of s e).value (RoundingInterval.of s e).denominator =
    lead at hLast ⊢
  split
  · rename_i digits exponent hFound
    obtain ⟨more, -, hMore⟩ := List.exists_of_findSome?_eq_some hFound
    obtain ⟨_, hGrid, hPair⟩ := Option.map_eq_some_iff.mp hMore
    obtain ⟨rfl, rfl⟩ := Prod.mk.inj hPair
    have hHolds := (holds_iff h.pos).mp (holds_of_onGrid? hGrid)
    split
    · rename_i hTen
      have hSame : ((1 : Nat) : ℚ) * 10 ^ (lead - more + 1) =
          (10 : Nat) * 10 ^ (lead - more) := by
        rw [zpow_add_one₀ (by norm_num)]
        push_cast
        ring
      rw [hTen] at hHolds
      rwa [hSame]
    · exact hHolds
  · rename_i hFound
    have hNone := List.findSome?_eq_none_iff.mp hFound 16 (by simp)
    push_cast at hNone
    rw [hLast] at hNone
    cases hNone

end Search

section Float

variable {x : Float}

/-- A finite float has a shortest decimal, and every decimal of the same sign and the same size
reads as the float. -/
theorem exists_shortest? (h : x.isFinite = true) (tie : Tie) : ∃ d, shortest? tie x = some d ∧
    ∀ other : Decimal, other.negative = d.negative → other.magnitude = d.magnitude →
      other.toFloat = x := by
  obtain ⟨b, hb⟩ := exists_ofFloat? h
  unfold shortest?
  rw [hb, Option.map_some]
  refine ⟨_, rfl, ?_⟩
  split
  · rename_i hNone
    intro other hSign hSize
    apply toFloat_eq hb hSign
    · intro _
      have hProduct : (other.digits : ℚ) * 10 ^ other.exponent = 0 := by simpa [magnitude] using hSize
      rcases mul_eq_zero.mp hProduct with hDigits | hTens
      · exact_mod_cast hDigits
      · exact absurd hTens (ten_zpow_pos _).ne'
    · exact fun hSome => absurd hNone hSome
  · rename_i hSome
    intro other hSign hSize
    apply toFloat_eq hb hSign
    · exact fun hNone => absurd hNone hSome
    · intro _
      obtain ⟨hNone, -⟩ | hProper := proper_of_ofFloat? hb
      · exact absurd hNone hSome
      · rw [hSize]
        exact shortestDigits_roundsTo hProper tie

end Float

end Decimal

end DatasetAudit
