import DatasetAudit.Decimal.Shortest
/-!
Decimal numbers as text: written out in full, in scientific notation, and with a fixed number of
places. Numbers in JSON and in messages are made of these.
-/

namespace DatasetAudit.Decimal

/-- The digits of a natural. -/
def digitsText (n : Nat) : List Char :=
  Nat.toDigits 10 n

/-- A minus sign, if the number has one. -/
def signText (negative : Bool) : List Char :=
  if negative then ['-'] else []

/-- Digits with a point before the last `places` of them, zeros put in front where they are too
few. Without places there is no point. -/
def withPoint (n places : Nat) : List Char :=
  let digits := digitsText n
  let padded := List.replicate (places + 1 - digits.length) '0' ++ digits
  let whole := padded.take (padded.length - places)
  if places = 0 then whole else whole ++ '.' :: padded.drop (padded.length - places)

/-- The number written out in full, without an exponent. -/
def positional (x : Decimal) : List Char :=
  signText x.negative ++
    if 0 ≤ x.exponent then digitsText (x.digits * tenTo x.exponent.toNat)
    else withPoint x.digits (-x.exponent).toNat

/-- The exponent of the first digit. -/
def leading (x : Decimal) : Int :=
  x.exponent + (digitCount x.digits - 1 : Nat)

/-- The number with one digit before the point and an exponent, which has a sign and, below ten,
one digit. -/
def scientific (x : Decimal) : List Char :=
  let e := x.leading
  signText x.negative ++
    (match digitsText x.digits with
      | first :: second :: rest => first :: '.' :: second :: rest
      | digits => digits) ++
    'e' :: (if e < 0 then '-' else '+') :: digitsText e.natAbs

/-- Words for the floats that are no numbers. -/
def nonFiniteText (x : Float) : List Char :=
  if x.isNaN then "NaN".toList else if x < 0 then "-inf".toList else "inf".toList

/-- A float in messages: the shortest digits that read back, written out in full. -/
def plainText (x : Float) : String :=
  String.ofList <|
    match shortest? .up x with
    | some d => d.positional
    | none => nonFiniteText x

/-- A float with a fixed number of places: its exact value rounded, a half to the even digit. -/
def fixedText (places : Nat) (x : Float) : String :=
  String.ofList <|
    match Binary64.ofFloat? x with
    | some b =>
      let n := (b.significand <<< b.exponent.toNat) * tenTo places
      signText b.negative ++ withPoint (divNearest n (1 <<< (-b.exponent).toNat)) places
    | none => nonFiniteText x

end DatasetAudit.Decimal
