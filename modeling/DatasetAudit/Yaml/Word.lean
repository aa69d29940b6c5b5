import DatasetAudit.Decimal.Reading
import DatasetAudit.Text.Hex
/-!
What the words of scalars mean: nothing, truth values, whole numbers in four bases, and floats. A
decimal number with leading zeros is no number but text.
-/

namespace DatasetAudit.Yaml.Word

/-- The words for nothing. -/
def isNull (text : List Char) : Bool :=
  ["null", "Null", "NULL", "~"].any fun word => word.toList == text

/-- The words for truth values. -/
def bool? (text : List Char) : Option Bool :=
  if ["true", "True", "TRUE"].any fun word => word.toList == text then some true
  else if ["false", "False", "FALSE"].any fun word => word.toList == text then some false
  else none

/-- A text without one sign of the two. -/
def dropSign : List Char → List Char
  | '+' :: rest => rest
  | '-' :: rest => rest
  | text => text

/-- A text without a plus sign. -/
def dropPlus : List Char → List Char
  | '+' :: rest => rest
  | text => text

/-- Whether a text begins with a sign. -/
def beginsWithSign (text : List Char) : Bool :=
  text.head? == some '+' || text.head? == some '-'

/-- Whether a text is digits that begin with a zero, with or without a sign, and is not zero
alone. -/
def hasLeadingZero (text : List Char) : Bool :=
  match dropSign text with
  | '0' :: second :: rest => (second :: rest).all Char.isDigit
  | _ => false

/-- The number that digits of a base write; none without a digit. -/
def inBase? (base : Nat) (digits : List Char) : Option Nat := do
  let values ← digits.mapM Hex.value?
  if values.isEmpty || values.any (base ≤ ·) then none
  else some (values.foldl (fun n v => n * base + v) 0)

/-- The base that the two characters in front of a number name, and the digits behind them. -/
def baseMark? : List Char → Option (Nat × List Char)
  | '0' :: 'x' :: rest => some (16, rest)
  | '0' :: 'o' :: rest => some (8, rest)
  | '0' :: 'b' :: rest => some (2, rest)
  | _ => none

/-- A whole number without a minus sign, below a bound. -/
def unsigned? (bound : Nat) (text : List Char) : Option Nat :=
  let digits := dropPlus text
  let number :=
    match baseMark? digits with
    | some (base, digits) => inBase? base digits
    | none => if hasLeadingZero text then none else Decimal.natural? digits
  number.filter (· < bound)

/-- A whole number that may have a minus sign, within a bound on either side. -/
def signed? (bound : Nat) (text : List Char) : Option Int :=
  let number : Option Int :=
    match text with
    | '-' :: rest =>
      match baseMark? rest with
      | some (base, digits) => (inBase? base digits).map fun n => -(n : Int)
      | none => if hasLeadingZero text then none else Decimal.integer? text
    | _ => if hasLeadingZero text then none else Decimal.integer? text
  number.filter fun n => -(bound : Int) ≤ n && n < bound

/-- A float: a decimal number that is not past the floats, or a word for an infinity or NaN. -/
def float? (text : List Char) : Option Float :=
  let positive := dropPlus text
  if [".inf", ".Inf", ".INF"].any fun word => word.toList == positive then
    some (Binary64.infinity false)
  else if ["-.inf", "-.Inf", "-.INF"].any fun word => word.toList == text then
    some (Binary64.infinity true)
  else if [".nan", ".NaN", ".NAN"].any fun word => word.toList == text then some (0.0 / 0.0)
  else if text.head? == some '+' && beginsWithSign positive then none
  else (Decimal.float? positive).filter Float.isFinite

end DatasetAudit.Yaml.Word
