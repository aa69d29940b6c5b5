import DatasetAudit.Yaml.Value
/-!
Settings in YAML: mappings with known keys, each read as what it is to be. A setting is written
plainly or, with the tag of its kind, as a literal block.
-/

namespace DatasetAudit.Yaml.Document

/-- The settings of a node by name. Every name has to be one of `names` and none may stand twice;
a place left empty has no settings. -/
def settings? (doc : Document) (names : List String) (node : Node) :
    Option (List (String × Node)) := do
  match ← doc.target? node with
  | .mapping _ members =>
    let settings ← members.mapM fun (key, value) => do
      match ← doc.target? key with
      | .scalar _ name _ => if names.contains name then some (name, value) else none
      | _ => none
    if (settings.map (·.1)).Nodup then some settings else none
  | .scalar _ text style => if text.isEmpty && style = .plain then some [] else none
  | _ => none

/-- The text of a scalar that is written plainly or as a literal block with a core tag. -/
def settingText? (doc : Document) (kind : String) (node : Node) : Option (List Char) := do
  match ← doc.target? node with
  | .scalar tag text style =>
    if style = .plain || (style = .literal && tag == some (coreTag kind)) then some text.toList
    else none
  | _ => none

/-- A truth value. -/
def bool? (doc : Document) (node : Node) : Option Bool :=
  (doc.settingText? "bool" node).bind Word.bool?

/-- A whole number below a bound. -/
def below? (bound : Nat) (doc : Document) (node : Node) : Option Nat :=
  ((doc.settingText? "int" node).bind (Word.unsigned? UInt64.size)).filter (· < bound)

/-- A float. -/
def float? (doc : Document) (node : Node) : Option Float :=
  (doc.settingText? "float" node).bind Word.float?

/-- The name of an alternative: the text of a scalar, or a tag with nothing behind it. -/
def alternative? (doc : Document) (node : Node) : Option String := do
  let isNothing (text : String) : Bool := text.isEmpty || Word.isNull text.toList
  match ← doc.target? node with
  | .scalar tag text style =>
    match localTag? tag with
    | some name => if style = .plain && isNothing text then some name else none
    | none => some text
  | _ => none

/-- A setting, or its default where it is not given. -/
def setting? {α : Type} (doc : Document) (settings : List (String × Node)) (name : String)
    (default : α) (read : Document → Node → Option α) : Option α :=
  match settings.lookup name with
  | some node => read doc node
  | none => some default

end DatasetAudit.Yaml.Document
