import DatasetAudit.Json.Basic
import DatasetAudit.Decimal.Text
import DatasetAudit.Text.Hex
/-!
JSON values as text, laid out with two spaces for each level, one item or member to a line, and a
line feed at the end of a document.
-/

namespace DatasetAudit.Json

/-- How a character stands in a string: quotes, backslashes and control characters are escaped,
everything else stands for itself. -/
def escape (c : Char) : List Char :=
  match c with
  | '"' => ['\\', '"']
  | '\\' => ['\\', '\\']
  | '\x08' => ['\\', 'b']
  | '\x0c' => ['\\', 'f']
  | '\n' => ['\\', 'n']
  | '\r' => ['\\', 'r']
  | '\t' => ['\\', 't']
  | c => if c.toNat < 0x20 then '\\' :: 'u' :: '0' :: '0' :: Hex.ofByte c.toNat.toUInt8 else [c]

/-- A string with its quotes. -/
def writeString (text : String) : List Char :=
  '"' :: text.toList.flatMap escape ++ ['"']

/-- A whole number. -/
def writeInteger (n : Int) : List Char :=
  Decimal.signText (n < 0) ++ Decimal.digitsText n.natAbs

/-- A float by the shortest digits that read back. With a first digit between the fifth place
after the point and the sixteenth before it the number is written out in full, always with a
fraction; otherwise with an exponent. An infinity or a NaN has no number and is `null`. -/
def writeFloat (x : Float) : List Char :=
  match Decimal.shortest? .toEven x with
  | none => "null".toList
  | some d =>
    let e := d.leading
    if -5 ≤ e && e ≤ 15 then d.positional ++ (if 0 ≤ d.exponent then ['.', '0'] else [])
    else d.scientific

/-- A line break and the indentation of a level. -/
def newLine (level : Nat) : List Char :=
  '\n' :: List.replicate (2 * level) ' '

mutual

/-- A value at a level of indentation. -/
def write (level : Nat) : Json → List Char
  | .null => "null".toList
  | .bool true => "true".toList
  | .bool false => "false".toList
  | .integer n => writeInteger n
  | .float x => writeFloat x
  | .string s => writeString s
  | .array [] => ['[', ']']
  | .array (item :: rest) =>
    '[' :: newLine (level + 1) ++ item.write (level + 1) ++ writeItems (level + 1) rest ++
      newLine level ++ [']']
  | .object [] => ['{', '}']
  | .object ((name, value) :: rest) =>
    '{' :: newLine (level + 1) ++ writeString name ++ ':' :: ' ' :: value.write (level + 1) ++
      writeMembers (level + 1) rest ++ newLine level ++ ['}']
  | .valueless => "null".toList

/-- The items after the first. -/
def writeItems (level : Nat) : List Json → List Char
  | [] => []
  | item :: rest => ',' :: newLine level ++ item.write level ++ writeItems level rest

/-- The members after the first. -/
def writeMembers (level : Nat) : List (String × Json) → List Char
  | [] => []
  | (name, value) :: rest =>
    ',' :: newLine level ++ writeString name ++ ':' :: ' ' :: value.write level ++
      writeMembers level rest

end

/-- A value as a document. -/
def document (value : Json) : String :=
  String.ofList (value.write 0 ++ ['\n'])

end DatasetAudit.Json
