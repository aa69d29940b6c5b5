import DatasetAudit.Decimal.Basic
import DatasetAudit.Json.Basic
/-!
Records in JSON. A record is written as an object of its fields, fields without a value left out.
It is read from such an object, other members passed over and no field given twice, or from an
array of its fields in order, the last ones left out if they have no value.
-/

namespace DatasetAudit.Json

/-- An object of those fields that have a value, in order. -/
def record (fields : List (String × Option Json)) : Json :=
  .object (fields.filterMap fun (name, value) => value.map (name, ·))

/-- The fields that a record's text gives, by name. -/
abbrev Fields := List (String × Json)

/-- The fields of a record that has fields of these names. -/
def fields? (names : List String) : Json → Option Fields
  | .object members =>
    let known := members.filter fun (name, _) => names.contains name
    if (known.map (·.1)).Nodup then some known else none
  | .array items => if items.length ≤ names.length then some (names.zip items) else none
  | _ => none

namespace Fields

variable {α : Type}

/-- A field that must be there. -/
def required? (fields : Fields) (name : String) (read : Json → Option α) : Option α :=
  (fields.lookup name).bind read

/-- A field that may be left out or `null`. -/
def optional? (fields : Fields) (name : String) (read : Json → Option α) : Option (Option α) :=
  match fields.lookup name with
  | none | some .null => some none
  | some value => (read value).map some

end Fields

/-- A truth value. -/
def bool? : Json → Option Bool
  | .bool b => some b
  | _ => none

/-- A string. -/
def string? : Json → Option String
  | .string s => some s
  | _ => none

/-- A whole number. -/
def integer? : Json → Option Int
  | .integer n => some n
  | _ => none

/-- A whole number from zero below a bound. -/
def below? (bound : Nat) (value : Json) : Option Nat :=
  value.integer?.bind fun n => if 0 ≤ n && n < bound then some n.toNat else none

/-- A count, which fits into sixty-four bits. -/
def count? (value : Json) : Option Nat :=
  value.below? UInt64.size

/-- An unsigned number of thirty-two bits. -/
def uint32? (value : Json) : Option UInt32 :=
  (value.below? UInt32.size).map UInt32.ofNat

/-- An unsigned number of sixty-four bits. -/
def uint64? (value : Json) : Option UInt64 :=
  (value.below? UInt64.size).map UInt64.ofNat

/-- A signed number of sixty-four bits. -/
def int64? (value : Json) : Option Int64 :=
  value.integer?.bind fun n =>
    if Int64.minValue.toInt ≤ n && n ≤ Int64.maxValue.toInt then some (Int64.ofInt n) else none

/-- A float, or a whole number as one. -/
def float? : Json → Option Float
  | .float x => some x
  | .integer n => some (Decimal.toFloat ⟨n < 0, n.natAbs, 0⟩)
  | _ => none

/-- The items of an array, each read the same way. -/
def array? {α : Type} (read : Json → Option α) : Json → Option (List α)
  | .array items => items.mapM read
  | _ => none

/-- The name of an alternative without content: the name alone, or the only member of an object,
with the value `null`. -/
def alternative? : Json → Option String
  | .string name => some name
  | .object [(name, .null)] => some name
  | _ => none

/-- One of finitely many alternatives, by its name. -/
def oneOf? {α : Type} (all : List α) (nameOf : α → String) (value : Json) : Option α :=
  value.alternative?.bind fun name => all.find? fun a => nameOf a == name

/-- The members of an object whose names are alternatives, each value read the same way. -/
def table? {α β : Type} (ofName? : String → Option α) (read : Json → Option β) :
    Json → Option (List (α × β))
  | .object members =>
    members.mapM fun (name, value) => do
      let key ← ofName? name
      let value ← read value
      some (key, value)
  | _ => none

end DatasetAudit.Json
