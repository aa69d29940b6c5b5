import DatasetAudit.Decimal.Basic
/-!
The shortest decimal number that reads back as a given float. The decimals nearest to the value
are tried with one significant digit, then two, up to seventeen; the first that lies among the
reals that round to the float is taken, the nearer one where both neighbours do.
-/

namespace DatasetAudit.Decimal

/-- Which of two equally near decimals is taken. -/
inductive Tie where
  | toEven
  | up
deriving DecidableEq, Repr

/-- The reals that round to a positive float, and the float itself, as numerators over one
denominator. The ends belong to them when the significand is even. -/
structure RoundingInterval where
  low : Nat
  value : Nat
  high : Nat
  denominator : Nat
  closed : Bool

/-- The reals that round to the float `significand * 2 ^ exponent`. Below a power of two the floats
lie half as far apart as above it. -/
def RoundingInterval.of (significand : Nat) (exponent : Int) : RoundingInterval :=
  let scale := 1 <<< (exponent - 2).toNat
  let isLeast := significand = Binary64.fractionSize && Binary64.minExponent < exponent
  let below := if isLeast then 1 else 2
  { low := (4 * significand - below) * scale
    value := 4 * significand * scale
    high := (4 * significand + 2) * scale
    denominator := 1 <<< (2 - exponent).toNat
    closed := significand % 2 == 0 }

/-- Whether the decimal `k * 10 ^ e` lies in the interval. -/
def RoundingInterval.holds (i : RoundingInterval) (k : Nat) (e : Int) : Bool :=
  let point := k * tenTo e.toNat * i.denominator
  let unit := tenTo (-e).toNat
  if i.closed then i.low * unit ≤ point && point ≤ i.high * unit
  else i.low * unit < point && point < i.high * unit

/-- The decimal that is taken on the grid of multiples of `10 ^ e`, if one of the value's two
neighbours there lies in the interval. -/
def RoundingInterval.onGrid? (i : RoundingInterval) (tie : Tie) (e : Int) : Option Nat :=
  let n := i.value * tenTo (-e).toNat
  let d := i.denominator * tenTo e.toNat
  let k := n / d
  let remainder := n % d
  let nearerIsUpper :=
    if 2 * remainder < d then false
    else if d < 2 * remainder then true
    else match tie with
      | .toEven => k % 2 == 1
      | .up => true
  match i.holds k e, i.holds (k + 1) e with
  | true, true => some (if nearerIsUpper then k + 1 else k)
  | true, false => some k
  | false, true => some (k + 1)
  | false, false => none

/-- The number of decimal digits of a natural. -/
def digitCount (n : Nat) : Nat :=
  (Nat.toDigits 10 n).length

/-- An exponent of ten at which the quotient `n / d` has one digit before the point, or less. -/
def leadingExponent (n d : Nat) : Int :=
  let e : Int := digitCount n - digitCount d
  if d * tenTo e.toNat ≤ n * tenTo (-e).toNat then e else e - 1

/-- The shortest digits and the exponent of ten of a positive float. Only the first grid can give
digits that end in zero, the ten above nine. -/
def shortestDigits (tie : Tie) (significand : Nat) (exponent : Int) : Nat × Int :=
  let interval := RoundingInterval.of significand exponent
  let lead := leadingExponent interval.value interval.denominator
  let found := (List.range 17).findSome? fun (more : Nat) =>
    let e := lead - more
    (interval.onGrid? tie e).map fun k => (k, e)
  match found with
  | some (k, e) => if k = 10 then (1, e + 1) else (k, e)
  | none => (0, 0)

/-- The shortest decimal that reads back as the float; none for an infinity or a NaN. -/
def shortest? (tie : Tie) (x : Float) : Option Decimal :=
  (Binary64.ofFloat? x).map fun b =>
    if b.significand = 0 then ⟨b.negative, 0, 0⟩
    else
      let (digits, exponent) := shortestDigits tie b.significand b.exponent
      ⟨b.negative, digits, exponent⟩

end DatasetAudit.Decimal
