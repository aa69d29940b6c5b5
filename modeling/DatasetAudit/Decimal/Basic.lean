/-!
Decimal numbers and binary64 floats, both exactly: a finite float is a natural significand times
a power of two, and the float nearest to a quotient of naturals is found by one rounded division.
-/

namespace DatasetAudit

/-- A decimal number: `digits` times ten to the power `exponent`, with a sign that zero has too. -/
structure Decimal where
  negative : Bool
  digits : Nat
  exponent : Int
deriving DecidableEq, Repr

/-- A finite binary64 float: `significand` times two to the power `exponent`, with a sign. -/
structure Binary64 where
  negative : Bool
  significand : Nat
  exponent : Int
deriving DecidableEq, Repr

/-- Ten to the power `n`. -/
def tenTo (n : Nat) : Nat :=
  Nat.pow 10 n

/-- The quotient of two naturals, rounded to the nearest natural, a half to the even one. -/
def divNearest (n d : Nat) : Nat :=
  let quotient := n / d
  let remainder := n % d
  if 2 * remainder < d then quotient
  else if d < 2 * remainder then quotient + 1
  else quotient + quotient % 2

namespace Binary64

/-- Two to the power of the number of bits in the field of the fraction: the smallest significand
of a float whose exponent is not the smallest. -/
def fractionSize : Nat := 1 <<< 52

/-- The exponent of the smallest floats. -/
def minExponent : Int := -1074

/-- The parts of a float; none for an infinity or a NaN. -/
def ofFloat? (x : Float) : Option Binary64 :=
  let bits : Nat := x.toBits.toNat
  let negative := decide (1 <<< 63 ≤ bits)
  let biased : Nat := bits / fractionSize % 2048
  let fraction : Nat := bits % fractionSize
  if biased = 2047 then none
  else if biased = 0 then some ⟨negative, fraction, minExponent⟩
  else some ⟨negative, fractionSize + fraction, (biased : Int) - 1075⟩

/-- The bits of positive infinity. -/
def infinityBits : Nat := 2047 * fractionSize

/-- The bits of the float nearest to `n / d`, without a sign. The significand is the quotient
rounded at the power of two that leaves it fifty-three bits, or at the smallest one; it is added
to its exponent's field, so that a carry runs over into the exponent. -/
def nearestBits (n d : Nat) : Nat :=
  if n = 0 then 0
  else
    let estimate : Int := (n.log2 : Int) - d.log2 - 53
    let scaled (q : Int) : Nat × Nat := (n <<< (-q).toNat, d <<< q.toNat)
    let fits := let (a, b) := scaled estimate; a / b < 2 * fractionSize
    let q := max minExponent (if fits then estimate else estimate + 1)
    let (a, b) := scaled q
    min infinityBits ((q - minExponent).toNat * fractionSize + divNearest a b)

/-- The float with these bits and this sign. -/
def floatOfBits (negative : Bool) (bits : Nat) : Float :=
  Float.ofBits (UInt64.ofNat (if negative then (1 <<< 63) + bits else bits))

/-- Infinity with a sign. -/
def infinity (negative : Bool) : Float :=
  floatOfBits negative infinityBits

end Binary64

namespace Decimal

/-- The nearest float. A number with an exponent above 400 lies past all floats; one that is
still below ten to the power of -400 after its digits are counted is nearest to zero. -/
def toFloat (x : Decimal) : Float :=
  if x.digits = 0 then Binary64.floatOfBits x.negative 0
  else if 400 < x.exponent then Binary64.infinity x.negative
  else if x.exponent < -401 - (x.digits.log2 : Int) then Binary64.floatOfBits x.negative 0
  else
    Binary64.floatOfBits x.negative
      (Binary64.nearestBits (x.digits * tenTo x.exponent.toNat) (tenTo (-x.exponent).toNat))

end Decimal

end DatasetAudit
