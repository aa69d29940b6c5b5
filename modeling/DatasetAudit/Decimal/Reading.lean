import DatasetAudit.Decimal.Basic
/-!
Numbers as people write them in label files: whole numbers with an optional sign, and decimal
numbers with an optional sign, point and exponent, or one of the words for infinity and NaN.
-/

namespace DatasetAudit.Decimal

/-- The value of a decimal digit. -/
def digitValue (c : Char) : Nat :=
  c.toNat - '0'.toNat

/-- The number written by decimal digits, most significant first. -/
def valueOfDigits (digits : List Char) : Nat :=
  digits.foldl (fun n c => n * 10 + digitValue c) 0

/-- A text split after its leading decimal digits. -/
def spanDigits (text : List Char) : List Char × List Char :=
  (text.takeWhile Char.isDigit, text.dropWhile Char.isDigit)

/-- A text without its optional sign, and whether that sign was a minus. -/
def takeSign : List Char → Bool × List Char
  | '-' :: rest => (true, rest)
  | '+' :: rest => (false, rest)
  | text => (false, text)

/-- The number that consists of decimal digits only, at least one. -/
def natural? (text : List Char) : Option Nat :=
  if text.isEmpty || !text.all Char.isDigit then none else some (valueOfDigits text)

/-- A whole number with an optional sign. -/
def integer? (text : List Char) : Option Int :=
  let (negative, digits) := takeSign text
  (natural? digits).map fun n => if negative then -(n : Int) else n

/-- A count, which may have a plus sign and fits into sixty-four bits. -/
def count? (text : List Char) : Option Nat :=
  let digits := match text with
    | '+' :: rest => rest
    | text => text
  (natural? digits).filter (· < UInt64.size)

/-- A whole number with an optional sign that fits into sixty-four bits. -/
def int64? (text : List Char) : Option Int64 :=
  match integer? text with
  | some n =>
    if Int64.minValue.toInt ≤ n && n ≤ Int64.maxValue.toInt then some (Int64.ofInt n) else none
  | none => none

/-- The exponent at the end of a decimal number: nothing, or the letter `e` in either case and a
whole number with an optional sign. -/
def exponent? : List Char → Option Int
  | [] => some 0
  | c :: rest => if c = 'e' || c = 'E' then integer? rest else none

/-- A decimal number without its sign: digits with an optional point, at least one digit, and an
optional exponent. -/
def unsigned? (negative : Bool) (text : List Char) : Option Decimal :=
  let (whole, afterWhole) := spanDigits text
  let (fraction, tail) :=
    match afterWhole with
    | '.' :: rest => spanDigits rest
    | rest => ([], rest)
  if whole.isEmpty && fraction.isEmpty then none
  else
    (exponent? tail).map fun exponent =>
      ⟨negative, valueOfDigits (whole ++ fraction), exponent - fraction.length⟩

/-- A float from text: a decimal number to its nearest float, `inf` or `infinity`, or `nan`, the
words in any mix of cases, each with an optional sign. -/
def float? (text : List Char) : Option Float :=
  let (negative, rest) := takeSign text
  let word := rest.map Char.toLower
  if word = "inf".toList || word = "infinity".toList then some (Binary64.infinity negative)
  else if word = "nan".toList then some (0.0 / 0.0)
  else (unsigned? negative rest).map toFloat

end DatasetAudit.Decimal
