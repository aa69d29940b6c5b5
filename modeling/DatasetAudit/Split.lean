import DatasetAudit.Text.Blank
/-!
The parts of a dataset and the names that users give them.
-/

namespace DatasetAudit

/-- A text that was to name one of a few things and names none of them. -/
inductive UnknownName where
  | split (text : String)
  | severity (text : String)
  | check (text : String)
deriving DecidableEq, Repr

/-- The wording of a name that is not known. -/
def UnknownName.message : UnknownName → String
  | .split text => s!"unsupported split '{text}' (expected train, val or test)"
  | .severity text => s!"unknown severity '{text}' (expected critical, high, medium or low)"
  | .check text => s!"unknown check '{text}'"

/-- A part of a dataset. They are ordered as they are listed. -/
inductive Split where
  | train
  | val
  | test
deriving DecidableEq, Repr

namespace Split

/-- All splits, in order. -/
def all : List Split := [.train, .val, .test]

/-- The splits that a model is evaluated on, which are compared with the training split. -/
def evaluation : List Split := [.val, .test]

/-- The name of a split. -/
def name : Split → String
  | .train => "train"
  | .val => "val"
  | .test => "test"

/-- The position of a split in the order. -/
def rank : Split → Nat
  | .train => 0
  | .val => 1
  | .test => 2

instance : Ord Split := ⟨compareOn rank⟩

/-- The split of a name. -/
def ofName? (name : String) : Option Split :=
  all.find? fun split => split.name == name

/-- The split that a text names, blanks around it passed over. -/
def parse (text : String) : Except UnknownName Split :=
  let text := Text.trim text
  match ofName? text with
  | some split => .ok split
  | none => .error (.split text)

instance : Std.TransOrd Split := inferInstanceAs (Std.TransCmp (compareOn rank))

instance : Std.LawfulEqOrd Split where
  eq_of_compare := by intro a b; cases a <;> cases b <;> decide

end Split

end DatasetAudit
