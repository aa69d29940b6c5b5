/-!
JSON values. An object keeps its members as they were written, repeated names included, so that a
reader of records can refuse a name given twice; `canonical` is the form in which free values are
kept, with names in order and each once.
-/

namespace DatasetAudit

/-- A JSON value. Whole numbers that fit into sixty-four bits, signed or unsigned, are kept apart
from floats. `valueless` is well-formed text without a value: a number past the floats, or a
string with half of a surrogate pair. It may stand where nobody reads it. -/
inductive Json where
  | null
  | bool (value : Bool)
  | integer (value : Int)
  | float (value : Float)
  | string (value : String)
  | array (items : List Json)
  | object (members : List (String × Json))
  | valueless
deriving Repr, Inhabited

namespace Json

mutual

/-- Whether every part of the text had a value. -/
def hasValue : Json → Bool
  | .array items => itemsHaveValue items
  | .object members => membersHaveValue members
  | .valueless => false
  | _ => true

/-- Whether every item has a value. -/
def itemsHaveValue : List Json → Bool
  | [] => true
  | item :: rest => item.hasValue && itemsHaveValue rest

/-- Whether every member has a value. -/
def membersHaveValue : List (String × Json) → Bool
  | [] => true
  | (_, value) :: rest => value.hasValue && membersHaveValue rest

end

mutual

/-- How deeply arrays and objects are nested; a value that is neither has depth zero. -/
def depth : Json → Nat
  | .array items => itemsDepth items + 1
  | .object members => membersDepth members + 1
  | _ => 0

/-- The greatest depth among items. -/
def itemsDepth : List Json → Nat
  | [] => 0
  | item :: rest => max item.depth (itemsDepth rest)

/-- The greatest depth among members. -/
def membersDepth : List (String × Json) → Nat
  | [] => 0
  | (_, value) :: rest => max value.depth (membersDepth rest)

end

/-- Puts a member into a list that is in order of names, in place of one that has its name. -/
def insertMember (name : String) (value : Json) : List (String × Json) → List (String × Json)
  | [] => [(name, value)]
  | (first, other) :: rest =>
    match compare name first with
    | .lt => (name, value) :: (first, other) :: rest
    | .eq => (name, value) :: rest
    | .gt => (first, other) :: insertMember name value rest

mutual

/-- The value with the names of every object in order and each once; of a repeated name the last
value counts. -/
def canonical : Json → Json
  | .array items => .array (canonicalItems items)
  | .object members => .object (canonicalMembers members [])
  | value => value

/-- The canonical forms of items. -/
def canonicalItems : List Json → List Json
  | [] => []
  | item :: rest => item.canonical :: canonicalItems rest

/-- Members in canonical form, put into those already in order. -/
def canonicalMembers : List (String × Json) → List (String × Json) → List (String × Json)
  | [], sorted => sorted
  | (name, value) :: rest, sorted =>
    canonicalMembers rest (insertMember name value.canonical sorted)

end

/-- A float as a value; an infinity or a NaN has no number and is `null`. -/
def ofFloat (x : Float) : Json :=
  if x.isFinite then .float x else .null

/-- A natural number as a value. -/
def ofNat (n : Nat) : Json :=
  .integer n

/-- A list of texts as a value. -/
def ofTexts (texts : List String) : Json :=
  .array (texts.map .string)

/-- The member with a name, if the value is an object that has it. -/
def member? (name : String) : Json → Option Json
  | .object members => members.lookup name
  | _ => none

end Json

end DatasetAudit
