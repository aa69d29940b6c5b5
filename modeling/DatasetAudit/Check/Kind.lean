import DatasetAudit.Split
/-!
The checks of an audit, in the order in which they are listed.
-/

namespace DatasetAudit

/-- The kind of a check. -/
inductive CheckKind where
  | integrity
  | classDistribution
  | bboxSanity
  | duplicates
  | nearDuplicates
  | leakage
deriving DecidableEq, Repr

namespace CheckKind

/-- Every check, in order. -/
def all : List CheckKind :=
  [.integrity, .classDistribution, .bboxSanity, .duplicates, .nearDuplicates, .leakage]

/-- The name of a check. -/
def name : CheckKind → String
  | .integrity => "integrity"
  | .classDistribution => "class_distribution"
  | .bboxSanity => "bbox_sanity"
  | .duplicates => "duplicates"
  | .nearDuplicates => "near_duplicates"
  | .leakage => "leakage"

/-- The position of a check in the order. -/
def rank : CheckKind → Nat
  | .integrity => 0
  | .classDistribution => 1
  | .bboxSanity => 2
  | .duplicates => 3
  | .nearDuplicates => 4
  | .leakage => 5

instance : Ord CheckKind := ⟨compareOn rank⟩

/-- The check of a name. -/
def ofName? (name : String) : Option CheckKind :=
  all.find? fun kind => kind.name == name

/-- The check that a text names, letter by letter. -/
def parse (text : String) : Except UnknownName CheckKind :=
  match ofName? text with
  | some kind => .ok kind
  | none => .error (.check text)

instance : Std.TransOrd CheckKind := inferInstanceAs (Std.TransCmp (compareOn rank))

instance : Std.LawfulEqOrd CheckKind where
  eq_of_compare := by intro a b; cases a <;> cases b <;> decide

end CheckKind

end DatasetAudit
