import DatasetAudit.Yaml.Node
import DatasetAudit.Yaml.Word
/-!
The value of a YAML document, references resolved and scalars understood. A mapping has no key
twice. Values are nested at most 128 deep, and references are followed at most a hundred times as
often as the document has parts.
-/

namespace DatasetAudit.Yaml

/-- A value. A tag that begins with an exclamation mark makes a value of its own kind. -/
inductive Value where
  | null
  | bool (value : Bool)
  | integer (value : Int)
  | float (value : Float)
  | string (value : String)
  | sequence (items : List Value)
  | mapping (members : List (Value × Value))
  | tagged (tag : String) (value : Value)
deriving Repr, Inhabited

namespace Value

mutual

/-- Whether two values are the same key. The order of a mapping's members does not count. -/
def same : Value → Value → Bool
  | .null, .null => true
  | .bool a, .bool b => a == b
  | .integer a, .integer b => a == b
  | .float a, .float b => a == b || (a.isNaN && b.isNaN)
  | .string a, .string b => a == b
  | .sequence a, .sequence b => sameItems a b
  | .mapping a, .mapping b => a.length == b.length && sameMembers a b
  | .tagged s a, .tagged t b => s == t && same a b
  | _, _ => false

/-- Whether two lists have the same values. -/
def sameItems : List Value → List Value → Bool
  | [], [] => true
  | a :: as, b :: bs => same a b && sameItems as bs
  | _, _ => false

/-- Whether every member has an equal one among others. -/
def sameMembers : List (Value × Value) → List (Value × Value) → Bool
  | [], _ => true
  | (key, value) :: rest, others =>
    others.any (fun (otherKey, other) => same key otherKey && same value other) &&
      sameMembers rest others

end

/-- Whether no key stands twice. -/
def keysDiffer : List (Value × Value) → Bool
  | [] => true
  | (key, _) :: rest => !rest.any (fun (other, _) => same key other) && keysDiffer rest

/-- The value of a key that is a string. -/
def lookup? (name : String) : List (Value × Value) → Option Value
  | [] => none
  | (.string key, value) :: rest => if key = name then some value else lookup? name rest
  | _ :: rest => lookup? name rest

end Value

/-- The tags of the core scalars. -/
def coreTag (name : String) : String :=
  "tag:yaml.org,2002:" ++ name

/-- The name of a tag that begins with an exclamation mark. -/
def localTag? (tag : Option String) : Option String :=
  match tag.map String.toList with
  | some ('!' :: rest) => some (String.ofList rest)
  | _ => none

/-- A whole number of at most sixty-four bits: `some none` for one that is wider than that and of
at most a hundred and twenty-eight bits. -/
def wholeNumber? (text : List Char) : Option (Option Int) :=
  match Word.unsigned? UInt64.size text, Word.signed? (1 <<< 63) text with
  | some n, _ => some (some n)
  | none, some n => some (some n)
  | none, none =>
    let isWide :=
      (Word.unsigned? (1 <<< 128) text).isSome || (Word.signed? (1 <<< 127) text).isSome
    if isWide then some none else none

/-- The value of a plain scalar without a tag. A whole number that is too wide has none. -/
def plainValue? (text : String) : Option Value :=
  let word := text.toList
  if word.isEmpty || Word.isNull word then some .null
  else
    match Word.bool? word, wholeNumber? word with
    | some b, _ => some (.bool b)
    | none, some n => n.map .integer
    | none, none =>
      match if Word.hasLeadingZero word then none else Word.float? word with
      | some x => some (.float x)
      | none => some (.string text)

/-- The value of a scalar whose tag, if any, makes no value of its own kind. -/
def scalarValue? (tag : Option String) (text : String) (style : ScalarStyle) : Option Value :=
  let word := text.toList
  match tag with
  | none => if style = .plain then plainValue? text else some (.string text)
  | some tag =>
    if tag = coreTag "bool" then (Word.bool? word).map .bool
    else if tag = coreTag "int" then ((wholeNumber? word).join).map .integer
    else if tag = coreTag "float" then (Word.float? word).map .float
    else if tag = coreTag "null" then if Word.isNull word then some .null else none
    else some (.string text)

namespace Document

/-- The node that a node stands for. -/
def target? (doc : Document) : Node → Option Node
  | .reference number => doc.anchored.lookup number
  | node => some node

/-- Reads values one after the other, each with the count of references that may still be
followed. -/
def readAll {α β : Type} (read : Nat → α → Option (β × Nat)) : Nat → List α → Option (List β × Nat)
  | budget, [] => some ([], budget)
  | budget, a :: rest => do
    let (b, budget) ← read budget a
    let (bs, budget) ← readAll read budget rest
    some (b :: bs, budget)

/-- The value of a node with at most so many levels of nesting, following at most `budget`
references, and the budget that is left. -/
def value? (doc : Document) : Nat → Nat → Node → Option (Value × Nat)
  | depth, budget, node => do
    let (target, budget) ←
      match node with
      | .reference number =>
        if budget = 0 then none else (doc.anchored.lookup number).map (·, budget - 1)
      | node => some (node, budget)
    let tagged (tag : Option String) (value : Value) : Option Value :=
      match localTag? tag with
      | some name => if name.isEmpty then none else some (.tagged name value)
      | none => some value
    match target with
    | .reference _ => none
    | .scalar tag text style =>
      let value ←
        match localTag? tag with
        | some _ => scalarValue? none text style
        | none => scalarValue? tag text style
      (tagged tag value).map (·, budget)
    | .sequence tag items =>
      match depth with
      | 0 => none
      | depth + 1 => do
        let (items, budget) ← readAll (value? doc depth) budget items
        (tagged tag (.sequence items)).map (·, budget)
    | .mapping tag members =>
      match depth with
      | 0 => none
      | depth + 1 => do
        let readMember (budget : Nat) (member : Node × Node) : Option ((Value × Value) × Nat) := do
          let (key, budget) ← value? doc depth budget member.1
          let (value, budget) ← value? doc depth budget member.2
          some ((key, value), budget)
        let (members, budget) ← readAll readMember budget members
        if Value.keysDiffer members then (tagged tag (.mapping members)).map (·, budget) else none

end Document

/-- The value of a text; nothing is the value of a text without a document. -/
def Value.ofText? (text : String) : Option Value := do
  match ← Document.ofText? text with
  | none => some .null
  | some doc => (doc.value? 128 (100 * doc.size) doc.root).map (·.1)

end DatasetAudit.Yaml
