import DatasetAudit.Split
/-!
How serious a finding is. The order decides whether a run passes its gate.
-/

namespace DatasetAudit

/-- The seriousness of a finding, from the lowest to the highest. -/
inductive Severity where
  | low
  | medium
  | high
  | critical
deriving DecidableEq, Repr

namespace Severity

/-- All severities, the highest first. -/
def descending : List Severity := [.critical, .high, .medium, .low]

/-- The name of a severity. -/
def name : Severity → String
  | .low => "low"
  | .medium => "medium"
  | .high => "high"
  | .critical => "critical"

/-- The position of a severity in the order. -/
def rank : Severity → Nat
  | .low => 0
  | .medium => 1
  | .high => 2
  | .critical => 3

instance : Ord Severity := ⟨compareOn rank⟩

instance : LE Severity := ⟨fun a b => a.rank ≤ b.rank⟩

instance (a b : Severity) : Decidable (a ≤ b) := inferInstanceAs (Decidable (a.rank ≤ b.rank))

/-- The severity of a name. -/
def ofName? (name : String) : Option Severity :=
  descending.find? fun severity => severity.name == name

/-- The severity that a text names, in any mix of cases and with blanks around it. -/
def parse (text : String) : Except UnknownName Severity :=
  let text := Text.lowerAscii (Text.trim text)
  match ofName? text with
  | some severity => .ok severity
  | none => .error (.severity text)

instance : Std.TransOrd Severity := inferInstanceAs (Std.TransCmp (compareOn rank))

instance : Std.LawfulEqOrd Severity where
  eq_of_compare := by intro a b; cases a <;> cases b <;> decide

end Severity

end DatasetAudit
