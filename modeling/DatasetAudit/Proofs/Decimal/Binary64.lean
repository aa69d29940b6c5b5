import DatasetAudit.Decimal.Basic
import Mathlib

/-! Binary64 floats and the reals that round to them. A quotient of naturals that lies between the
middles to the neighbours of a float has that float as its nearest, and at a middle it has it if the
significand is even; so the bits of the float are found from any such quotient. -/

namespace DatasetAudit

namespace Binary64

theorem fractionSize_eq : fractionSize = 2 ^ 52 := rfl

theorem minExponent_eq : minExponent = -1074 := rfl

/-- The significand and the exponent of a finite float other than zero. Only with the smallest
exponent may the significand have fewer bits than fit. -/
structure Proper (significand : Nat) (exponent : Int) : Prop where
  pos : 0 < significand
  lt : significand < 2 ^ 53
  ge : -1074 ≤ exponent
  le : exponent ≤ 971
  full : -1074 < exponent → 2 ^ 52 ≤ significand

/-- The bits of a float without its sign: a significand runs over into the exponent's field. -/
def magnitudeBits (significand : Nat) (exponent : Int) : Nat :=
  (exponent - minExponent).toNat * fractionSize + significand

section Bits

variable {x : Float} {b : Binary64}

/-- The parts of a float hold all of its bits. -/
theorem toBits_of_ofFloat? (h : ofFloat? x = some b) :
    x.toBits.toNat = (if b.negative then 2 ^ 63 else 0) + magnitudeBits b.significand b.exponent := by
  have hLt := x.toBits.toNat_lt
  unfold ofFloat? at h
  simp only [fractionSize_eq, Nat.one_shiftLeft] at h
  split at h
  · cases h
  · split at h
    all_goals
      obtain rfl := Option.some.inj h
      simp only [magnitudeBits, fractionSize_eq, minExponent_eq, decide_eq_true_eq]
      split <;> omega

theorem proper_of_ofFloat? (h : ofFloat? x = some b) :
    b.significand = 0 ∧ b.exponent = minExponent ∨ Proper b.significand b.exponent := by
  unfold ofFloat? at h
  simp only [fractionSize_eq, Nat.one_shiftLeft] at h
  generalize x.toBits.toNat = bits at h
  split at h
  · cases h
  · split at h
    · obtain rfl := Option.some.inj h
      by_cases hZero : bits % 2 ^ 52 = 0
      · exact .inl ⟨hZero, rfl⟩
      · right
        constructor <;> simp only [minExponent_eq] <;> omega
    · obtain rfl := Option.some.inj h
      right
      constructor <;> simp only <;> omega

/-- A float is an infinity or a NaN if its exponent has all bits. -/
theorem isFinite_eq_false_iff :
    x.isFinite = false ↔ x.toBits.toNat / fractionSize % 2048 = 2047 := by
  have hVec : @Float.Model.UnpackedFloat.unpackExponent Float.Model.Format.binary64
      x.toModel.toBits.toBitVec = -1#11 ↔ x.toBits.toNat / fractionSize % 2048 = 2047 := by
    rw [Float.Model.UnpackedFloat.unpackExponent_def, ← BitVec.toNat_inj,
      BitVec.extractLsb'_toNat, Nat.shiftRight_eq_div_pow]
    rfl
  change x.toModel.unpack.isFinite = false ↔ _
  rw [← hVec, Float.Model.unpack, Float.Model.UnpackedFloat.unpack]
  simp only
  split
  · rename_i hMax
    refine iff_of_true ?_ hMax
    split <;> rfl
  · rename_i hMax
    refine iff_of_false ?_ hMax
    repeat' split
    all_goals exact Bool.noConfusion

theorem ofFloat?_eq_none_iff : ofFloat? x = none ↔ x.isFinite = false := by
  rw [isFinite_eq_false_iff]
  unfold ofFloat?
  simp only
  repeat' split
  all_goals simp_all

/-- Every finite float has parts. -/
theorem exists_ofFloat? (h : x.isFinite = true) : ∃ b, ofFloat? x = some b := by
  rw [← Option.ne_none_iff_exists', ne_eq, ofFloat?_eq_none_iff, h]
  exact Bool.noConfusion

theorem floatOfBits_eq {bits : Nat} {negative : Bool}
    (h : x.toBits.toNat = (if negative then 2 ^ 63 else 0) + bits) :
    floatOfBits negative bits = x := by
  have hBits : (if negative then (1 <<< 63) + bits else bits) = x.toBits.toNat := by
    rw [h, Nat.one_shiftLeft]
    split <;> simp
  rw [floatOfBits, hBits, UInt64.ofNat_toNat, Float.ofBits_toBits]

end Bits

/-- A quotient at most half a unit away from a natural, and less than that if the natural is odd,
rounds to it. -/
theorem divNearest_eq {n d s : Nat} (hd : 0 < d) (hLow : 2 * s * d ≤ 2 * n + d)
    (hHigh : 2 * n ≤ 2 * s * d + d)
    (hOdd : s % 2 = 1 → 2 * s * d < 2 * n + d ∧ 2 * n < 2 * s * d + d) : divNearest n d = s := by
  have hMod := Nat.mod_lt n hd
  have hDiv : n = n / d * d + n % d := (Nat.div_add_mod' n d).symm
  have hUpper : n / d < s + 1 := by
    apply Nat.div_lt_of_lt_mul
    nlinarith
  have hLower : s < n / d + 2 := by
    by_contra hNot
    have hMul : (n / d + 2) * d ≤ s * d := Nat.mul_le_mul_right d (by omega)
    nlinarith
  obtain rfl | rfl : s = n / d ∨ s = n / d + 1 := by omega
  · have hProduct : 2 * (n / d) * d = 2 * (n / d * d) := Nat.mul_assoc 2 _ _
    rw [hProduct] at hHigh hOdd
    unfold divNearest
    simp only
    split
    · rfl
    · split <;> omega
  · have hProduct : 2 * (n / d + 1) * d = 2 * (n / d * d) + 2 * d := by ring
    rw [hProduct] at hLow hOdd
    unfold divNearest
    simp only
    split
    · omega
    · split
      · rfl
      · omega

section Nearest

variable {s : Nat} {e : Int} {n d : Nat}

/-- How far the reals that round to a float reach down, in quarters of a unit: half as far below a
power of two, where the floats lie closer together. -/
def below (s : Nat) (e : Int) : Nat :=
  if s = 2 ^ 52 ∧ -1074 < e then 1 else 2

/-- A real lies between the middles to the neighbours of a float, and at a middle only if the
significand is even. -/
structure RoundsTo (r : ℚ) (s : Nat) (e : Int) : Prop where
  ge : (4 * s - below s e) * (2 : ℚ) ^ (e - 2) ≤ r
  le : r ≤ (4 * s + 2) * (2 : ℚ) ^ (e - 2)
  odd : s % 2 = 1 → (4 * s - below s e) * (2 : ℚ) ^ (e - 2) < r ∧
    r < (4 * s + 2) * (2 : ℚ) ^ (e - 2)

theorem RoundsTo.of_lt {r : ℚ} (hLow : (4 * s - below s e) * (2 : ℚ) ^ (e - 2) < r)
    (hHigh : r < (4 * s + 2) * (2 : ℚ) ^ (e - 2)) : RoundsTo r s e :=
  ⟨hLow.le, hHigh.le, fun _ => ⟨hLow, hHigh⟩⟩

theorem below_le (s : Nat) (e : Int) : (below s e : ℚ) ≤ 2 := by
  unfold below
  split <;> norm_num

theorem one_le_below (s : Nat) (e : Int) : (1 : ℚ) ≤ below s e := by
  unfold below
  split <;> norm_num

theorem two_zpow_pos (e : Int) : (0 : ℚ) < 2 ^ e := zpow_pos (by norm_num) e

/-- A power of two that is `k` places further up. -/
theorem two_zpow_eq {a b : Int} {k : Nat} (h : a = b + k) : (2 : ℚ) ^ a = 2 ^ k * 2 ^ b := by
  rw [h, zpow_add₀ (by norm_num), zpow_natCast, mul_comm]

theorem lt_of_two_zpow_lt {a b : Int} (h : (2 : ℚ) ^ a < 2 ^ b) : a < b :=
  (zpow_lt_zpow_iff_right₀ one_lt_two).mp h

/-- A quotient scaled by a power of two, as two naturals. -/
theorem shifted_div (hd : 0 < d) (q : Int) :
    ((n <<< (-q).toNat : Nat) : ℚ) = (n : ℚ) / d / 2 ^ q * ((d <<< q.toNat : Nat) : ℚ) := by
  have hD : (d : ℚ) ≠ 0 := by exact_mod_cast hd.ne'
  rcases Int.eq_nat_or_neg q with ⟨k, rfl | rfl⟩
  · have hZero : (-(k : Int)).toNat = 0 := by omega
    rw [hZero, Int.toNat_natCast, Nat.shiftLeft_zero, Nat.shiftLeft_eq, zpow_natCast]
    push_cast
    field_simp
  · have hZero : (-(k : Int)).toNat = 0 := by omega
    rw [neg_neg, Int.toNat_natCast, hZero, Nat.shiftLeft_zero, Nat.shiftLeft_eq, zpow_neg,
      zpow_natCast]
    push_cast
    field_simp

theorem shifted_pos (hd : 0 < d) (q : Int) : 0 < d <<< q.toNat := by
  rw [Nat.shiftLeft_eq]
  positivity

/-- The quotient lies within a factor of two on either side of the power of two that the numbers
of bits suggest. -/
theorem estimate_bounds (hn : 0 < n) (hd : 0 < d) :
    (2 : ℚ) ^ ((n.log2 : Int) - d.log2 - 1) < (n : ℚ) / d ∧
      (n : ℚ) / d < 2 ^ ((n.log2 : Int) - d.log2 + 1) := by
  have hD : (0 : ℚ) < d := by exact_mod_cast hd
  have hNLow : (2 : ℚ) ^ n.log2 ≤ n := by exact_mod_cast Nat.log2_self_le hn.ne'
  have hNHigh : (n : ℚ) < 2 ^ (n.log2 + 1) := by exact_mod_cast Nat.lt_log2_self
  have hDLow : (2 : ℚ) ^ d.log2 ≤ d := by exact_mod_cast Nat.log2_self_le hd.ne'
  have hDHigh : (d : ℚ) < 2 ^ (d.log2 + 1) := by exact_mod_cast Nat.lt_log2_self
  constructor
  · rw [lt_div_iff₀ hD]
    calc (2 : ℚ) ^ ((n.log2 : Int) - d.log2 - 1) * d
        < 2 ^ ((n.log2 : Int) - d.log2 - 1) * 2 ^ (d.log2 + 1) := by
          gcongr
      _ = 2 ^ n.log2 := by
          rw [← zpow_natCast, ← zpow_natCast, ← zpow_add₀ (by norm_num)]
          congr 1
          push_cast
          ring
      _ ≤ n := hNLow
  · rw [div_lt_iff₀ hD]
    calc (n : ℚ) < 2 ^ (n.log2 + 1) := hNHigh
      _ = 2 ^ ((n.log2 : Int) - d.log2 + 1) * 2 ^ d.log2 := by
          rw [← zpow_natCast, ← zpow_natCast, ← zpow_add₀ (by norm_num)]
          congr 1
          push_cast
          ring
      _ ≤ 2 ^ ((n.log2 : Int) - d.log2 + 1) * d := by gcongr

/-- The power of two that leaves the quotient fifty-three bits. -/
def unitExponent (n d : Nat) : Int :=
  let estimate : Int := (n.log2 : Int) - d.log2 - 53
  if n <<< (-estimate).toNat / d <<< estimate.toNat < 2 * fractionSize then estimate
  else estimate + 1

theorem nearestBits_eq_of_pos (hn : 0 < n) : nearestBits n d =
    min infinityBits ((max minExponent (unitExponent n d) - minExponent).toNat * fractionSize +
      divNearest (n <<< (-max minExponent (unitExponent n d)).toNat)
        (d <<< (max minExponent (unitExponent n d)).toNat)) := by
  rw [nearestBits, if_neg hn.ne']
  simp only [unitExponent]

theorem unitExponent_bounds (hn : 0 < n) (hd : 0 < d) :
    (2 : ℚ) ^ (unitExponent n d + 52) ≤ n / d ∧ (n : ℚ) / d < 2 ^ (unitExponent n d + 53) := by
  obtain ⟨hLow, hHigh⟩ := estimate_bounds hn hd
  unfold unitExponent
  generalize hEstimate : (n.log2 : Int) - d.log2 - 53 = estimate
  have hFirst : (n.log2 : Int) - d.log2 - 1 = estimate + 52 := by omega
  have hLast : (n.log2 : Int) - d.log2 + 1 = estimate + 54 := by omega
  rw [hFirst] at hLow
  rw [hLast] at hHigh
  have hFits : n <<< (-estimate).toNat / d <<< estimate.toNat < 2 * fractionSize ↔
      (n : ℚ) / d < 2 ^ (estimate + 53) := by
    have hPos : (0 : ℚ) < ((d <<< estimate.toNat : Nat) : ℚ) := by
      exact_mod_cast shifted_pos hd estimate
    rw [Nat.div_lt_iff_lt_mul (shifted_pos hd estimate), fractionSize_eq,
      ← @Nat.cast_lt ℚ, shifted_div hd, Nat.cast_mul, mul_lt_mul_iff_left₀ hPos,
      div_lt_iff₀ (two_zpow_pos _), @two_zpow_eq (estimate + 53) estimate 53 (by omega)]
    norm_num
  simp only
  split
  · rename_i h
    exact ⟨hLow.le, hFits.mp h⟩
  · rename_i h
    refine ⟨?_, ?_⟩
    · have hGe := not_lt.mp fun hLt => h (hFits.mpr hLt)
      rwa [show estimate + 1 + 52 = estimate + 53 by ring]
    · rwa [show estimate + 1 + 53 = estimate + 54 by ring]

theorem unitExponent_le (hn : 0 < n) (hd : 0 < d) {q : Int} (h : (n : ℚ) / d < 2 ^ (q + 53)) :
    unitExponent n d ≤ q := by
  have hLt := lt_of_two_zpow_lt ((unitExponent_bounds hn hd).1.trans_lt h)
  omega

theorem le_unitExponent (hn : 0 < n) (hd : 0 < d) {q : Int} (h : (2 : ℚ) ^ (q + 52) ≤ n / d) :
    q ≤ unitExponent n d := by
  have hLt := lt_of_two_zpow_lt (h.trans_lt (unitExponent_bounds hn hd).2)
  omega

/-- A quotient that is `s` units of `2 ^ q` to the nearest has the bits of `s` with that exponent. -/
theorem divNearest_shifted (hd : 0 < d) {q : Int} (hLow : (2 * s - 1 : ℚ) * 2 ^ q ≤ 2 * (n / d))
    (hHigh : 2 * ((n : ℚ) / d) ≤ (2 * s + 1) * 2 ^ q)
    (hOdd : s % 2 = 1 → (2 * s - 1 : ℚ) * 2 ^ q < 2 * (n / d) ∧
      2 * ((n : ℚ) / d) < (2 * s + 1) * 2 ^ q) :
    divNearest (n <<< (-q).toNat) (d <<< q.toNat) = s := by
  have hPos := shifted_pos hd q
  have hScale : (0 : ℚ) < ((d <<< q.toNat : Nat) : ℚ) := by exact_mod_cast hPos
  have hUnit := two_zpow_pos q
  -- Both sides are divided by the unit and multiplied by the shifted denominator.
  have hN := shifted_div (n := n) hd q
  generalize n <<< (-q).toNat = a at hN ⊢
  generalize d <<< q.toNat = b at hN hPos hScale ⊢
  generalize (n : ℚ) / d = r at *
  have hA : (a : ℚ) * 2 ^ q = r * b := by
    rw [hN]
    field_simp
  apply divNearest_eq hPos
  · rw [← @Nat.cast_le ℚ]
    push_cast
    nlinarith
  · rw [← @Nat.cast_le ℚ]
    push_cast
    nlinarith
  · intro h
    obtain ⟨hLow, hHigh⟩ := hOdd h
    constructor
    · rw [← @Nat.cast_lt ℚ]
      push_cast
      nlinarith
    · rw [← @Nat.cast_lt ℚ]
      push_cast
      nlinarith

/-- What rounds to a float has at least as many quarters of its unit as the lower end. -/
theorem RoundsTo.quarters_le {r m : ℚ} (hr : RoundsTo r s e) (h : m ≤ 4 * s - below s e) :
    m * 2 ^ (e - 2) ≤ r :=
  (mul_le_mul_of_nonneg_right h (two_zpow_pos _).le).trans hr.ge

theorem RoundsTo.lt {r : ℚ} (h : Proper s e) (hr : RoundsTo r s e) : r < 2 ^ (e + 53) := by
  have hS : (s : ℚ) + 1 ≤ 2 ^ 53 := by exact_mod_cast h.lt
  have hQuarter := two_zpow_pos (e - 2)
  calc r ≤ (4 * s + 2) * 2 ^ (e - 2) := hr.le
    _ < 2 ^ 55 * 2 ^ (e - 2) := by gcongr; linarith
    _ = 2 ^ (e + 53) := (two_zpow_eq (by omega)).symm

/-- The unit of a quotient that rounds to a float is the float's own, or half of it: a quotient
just below a power of two has a bit more to the right. -/
theorem unitExponent_of_roundsTo (h : Proper s e) (hn : 0 < n) (hd : 0 < d)
    (hr : RoundsTo (n / d) s e) :
    max (-1074) (unitExponent n d) = e ∨
      (-1074 < e ∧ s = 2 ^ 52 ∧ unitExponent n d = e - 1) := by
  have hUpper := unitExponent_le hn hd (hr.lt h)
  have hBelow := below_le s e
  rcases h.ge.eq_or_lt with hLeast | hMore
  · left
    omega
  · have hFull : (2 : ℚ) ^ 52 ≤ s := by exact_mod_cast h.full hMore
    have hLower : e - 1 ≤ unitExponent n d := by
      apply le_unitExponent hn hd
      rw [@two_zpow_eq (e - 1 + 52) (e - 2) 53 (by omega)]
      exact hr.quarters_le (by linarith)
    by_cases hLeast : s = 2 ^ 52
    · by_cases hSame : unitExponent n d = e
      · left
        omega
      · exact .inr ⟨hMore, hLeast, by omega⟩
    · left
      have hNext : (2 : ℚ) ^ 52 + 1 ≤ s := by
        have hLt : 2 ^ 52 < s := lt_of_le_of_ne (h.full hMore) fun hEq => hLeast hEq.symm
        exact_mod_cast hLt
      have hOwn : e ≤ unitExponent n d := by
        apply le_unitExponent hn hd
        rw [@two_zpow_eq (e + 52) (e - 2) 54 (by omega)]
        exact hr.quarters_le (by linarith)
      omega

theorem magnitudeBits_lt (h : Proper s e) : magnitudeBits s e < infinityBits := by
  have hGe := h.ge
  have hLe := h.le
  have hLt := h.lt
  simp only [magnitudeBits, infinityBits, fractionSize_eq, minExponent_eq]
  omega

/-- At the unit of a float, what rounds to it is nearest to its significand. -/
theorem divNearest_of_roundsTo (hd : 0 < d) (hr : RoundsTo (n / d) s e) :
    divNearest (n <<< (-e).toNat) (d <<< e.toNat) = s := by
  have hUnit : (2 : ℚ) ^ e = 2 ^ 2 * 2 ^ (e - 2) := two_zpow_eq (by omega)
  have hQuarter := two_zpow_pos (e - 2)
  have hBelow := below_le s e
  apply divNearest_shifted hd
  · rw [hUnit]
    nlinarith [hr.ge]
  · rw [hUnit]
    nlinarith [hr.le]
  · intro hOdd
    obtain ⟨hLow, hHigh⟩ := hr.odd hOdd
    rw [hUnit]
    constructor <;> nlinarith

/-- At half the unit, what lies just below a power of two is nearest to twice the significand,
which runs over into the exponent. -/
theorem divNearest_half_of_roundsTo (hd : 0 < d) (hMore : -1074 < e)
    (hr : RoundsTo (n / d) (2 ^ 52) e) (hHigh : (n : ℚ) / d < 2 ^ (e - 1 + 53)) :
    divNearest (n <<< (-(e - 1)).toNat) (d <<< (e - 1).toNat) = 2 ^ 53 := by
  have hUnit : (2 : ℚ) ^ (e - 1) = 2 ^ 1 * 2 ^ (e - 2) := two_zpow_eq (by omega)
  have hQuarter := two_zpow_pos (e - 2)
  have hBelow : below (2 ^ 52) e = 1 := if_pos ⟨rfl, hMore⟩
  have hLow := hr.ge
  rw [hBelow] at hLow
  rw [@two_zpow_eq (e - 1 + 53) (e - 2) 54 (by omega)] at hHigh
  push_cast at hLow
  apply divNearest_shifted hd
  · rw [hUnit]
    push_cast
    nlinarith
  · rw [hUnit]
    push_cast
    nlinarith
  · intro hOdd
    exact absurd hOdd (by decide)

/-- A quotient that rounds to a float has its bits. -/
theorem nearestBits_eq (h : Proper s e) (hn : 0 < n) (hd : 0 < d) (hr : RoundsTo (n / d) s e) :
    nearestBits n d = magnitudeBits s e := by
  have hLt := magnitudeBits_lt h
  rw [nearestBits_eq_of_pos hn, minExponent_eq]
  obtain hSame | ⟨hMore, rfl, hHalf⟩ := unitExponent_of_roundsTo h hn hd hr
  · rw [hSame, divNearest_of_roundsTo hd hr]
    exact Nat.min_eq_right hLt.le
  · have hHigh := (unitExponent_bounds hn hd).2
    have hMax : max (-1074) (unitExponent n d) = e - 1 := by omega
    rw [hHalf] at hHigh
    rw [hMax, divNearest_half_of_roundsTo hd hMore hr hHigh]
    simp only [magnitudeBits, fractionSize_eq, minExponent_eq] at hLt ⊢
    omega

end Nearest

end Binary64

end DatasetAudit
