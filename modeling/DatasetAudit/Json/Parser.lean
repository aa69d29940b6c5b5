import DatasetAudit.Json.Basic
import DatasetAudit.Decimal.Reading
import DatasetAudit.Text.Hex
/-!
Reading JSON text. Every reader takes the characters that are left and gives back a value with
the characters after it. Nesting is followed with a count of steps that starts at the length of
the text, which no text uses up.
-/

namespace DatasetAudit.Json

/-- The blanks that may stand between the parts of a value. -/
def isSpace (c : Char) : Bool :=
  c == ' ' || c == '\n' || c == '\t' || c == '\r'

/-- The text after its leading blanks. -/
def skipSpace (text : List Char) : List Char :=
  text.dropWhile isSpace

/-- The number of four hexadecimal digits. -/
def hexUnit? (a b c d : Char) : Option Nat := do
  let a ← Hex.value? a
  let b ← Hex.value? b
  let c ← Hex.value? c
  let d ← Hex.value? d
  some (((a * 16 + b) * 16 + c) * 16 + d)

/-- The character that a letter after a backslash stands for. -/
def escaped? (c : Char) : Option Char :=
  match c with
  | '"' => some '"'
  | '\\' => some '\\'
  | '/' => some '/'
  | 'b' => some '\x08'
  | 'f' => some '\x0c'
  | 'n' => some '\n'
  | 'r' => some '\r'
  | 't' => some '\t'
  | _ => none

/-- The rest of a string after its first quote, as code units: a character by its code point, an
escaped unit by its number. A control character may not stand in a string. -/
def stringUnits? : List Char → Option (List Nat × List Char)
  | '"' :: rest => some ([], rest)
  | '\\' :: 'u' :: a :: b :: c :: d :: rest => do
    let unit ← hexUnit? a b c d
    let (units, rest) ← stringUnits? rest
    some (unit :: units, rest)
  | '\\' :: letter :: rest => do
    let c ← escaped? letter
    let (units, rest) ← stringUnits? rest
    some (c.toNat :: units, rest)
  | c :: rest =>
    if c = '\\' || c.toNat < 0x20 then none
    else do
      let (units, rest) ← stringUnits? rest
      some (c.toNat :: units, rest)
  | [] => none

/-- The first unit of a surrogate pair. -/
def isHighSurrogate (unit : Nat) : Bool :=
  0xD800 ≤ unit && unit < 0xDC00

/-- The second unit of a surrogate pair. -/
def isLowSurrogate (unit : Nat) : Bool :=
  0xDC00 ≤ unit && unit < 0xE000

/-- The characters of code units; none if half of a surrogate pair stands alone. -/
def charsOfUnits? : List Nat → Option (List Char)
  | [] => some []
  | [unit] =>
    if isHighSurrogate unit || isLowSurrogate unit then none else some [Char.ofNat unit]
  | unit :: next :: rest =>
    if isHighSurrogate unit then
      if isLowSurrogate next then
        (charsOfUnits? rest).map
          (Char.ofNat (0x10000 + (unit - 0xD800) * 0x400 + (next - 0xDC00)) :: ·)
      else none
    else if isLowSurrogate unit then none
    else (charsOfUnits? (next :: rest)).map (Char.ofNat unit :: ·)

/-- The string after its first quote: its value, if it has one, and the text after it. -/
def stringTail? (text : List Char) : Option (Option String × List Char) :=
  (stringUnits? text).map fun (units, rest) =>
    ((charsOfUnits? units).map String.ofList, rest)

/-- The digits of a number's whole part: a zero alone, or digits that begin with another one. -/
def wholeDigits? : List Char → Option (List Char × List Char)
  | '0' :: rest => some (['0'], rest)
  | text =>
    let (digits, rest) := Decimal.spanDigits text
    if digits.isEmpty then none else some (digits, rest)

/-- The digits after a point, none if there is no point. A point is followed by a digit. -/
def fractionDigits? : List Char → Option (Option (List Char) × List Char)
  | '.' :: text =>
    let (digits, rest) := Decimal.spanDigits text
    if digits.isEmpty then none else some (some digits, rest)
  | text => some (none, text)

/-- The exponent, none if there is no letter for it. The letter and its optional sign are followed
by a digit. -/
def exponentPart? : List Char → Option (Option Int × List Char)
  | [] => some (none, [])
  | c :: text =>
    if c = 'e' || c = 'E' then
      let (negative, afterSign) := Decimal.takeSign text
      let (digits, rest) := Decimal.spanDigits afterSign
      if digits.isEmpty then none
      else
        let n : Int := Decimal.valueOfDigits digits
        some (some (if negative then -n else n), rest)
    else some (none, c :: text)

/-- The value of a decimal number, if it is not past the floats. -/
def ofDecimal (d : Decimal) : Json :=
  let x := d.toFloat
  if x.isFinite then .float x else .valueless

/-- The value of a whole number: an integer if it fits into sixty-four bits, signed or unsigned,
otherwise a float. Minus zero is a float too, the integers having no such number. -/
def ofWhole (negative : Bool) (n : Nat) : Json :=
  if negative then
    if 0 < n && n ≤ 1 <<< 63 then .integer (-(n : Int)) else ofDecimal ⟨true, n, 0⟩
  else if n < UInt64.size then .integer n
  else ofDecimal ⟨false, n, 0⟩

/-- A number without its sign, and the text after it. -/
def number? (negative : Bool) (text : List Char) : Option (Json × List Char) := do
  let (whole, rest) ← wholeDigits? text
  let (fraction, rest) ← fractionDigits? rest
  let (exponent, rest) ← exponentPart? rest
  match fraction, exponent with
  | none, none => some (ofWhole negative (Decimal.valueOfDigits whole), rest)
  | _, _ =>
    let fraction := fraction.getD []
    let digits := Decimal.valueOfDigits (whole ++ fraction)
    some (ofDecimal ⟨negative, digits, exponent.getD 0 - fraction.length⟩, rest)

/-- An object with these members, if every name has a value. -/
def ofMembers (members : List (Option String × Json)) : Json :=
  match members.mapM fun (name, value) => name.map (·, value) with
  | some members => .object members
  | none => .valueless

mutual

/-- A value, blanks before it passed over. -/
def readValue? : Nat → List Char → Option (Json × List Char)
  | 0, _ => none
  | steps + 1, text =>
    match skipSpace text with
    | '{' :: rest =>
      match skipSpace rest with
      | '}' :: rest => some (.object [], rest)
      | rest => (readMembers? steps rest).map fun (members, rest) => (ofMembers members, rest)
    | '[' :: rest =>
      match skipSpace rest with
      | ']' :: rest => some (.array [], rest)
      | rest => (readItems? steps rest).map fun (items, rest) => (.array items, rest)
    | '"' :: rest =>
      (stringTail? rest).map fun (s, rest) => (s.elim .valueless .string, rest)
    | 't' :: 'r' :: 'u' :: 'e' :: rest => some (.bool true, rest)
    | 'f' :: 'a' :: 'l' :: 's' :: 'e' :: rest => some (.bool false, rest)
    | 'n' :: 'u' :: 'l' :: 'l' :: rest => some (.null, rest)
    | '-' :: rest => number? true rest
    | rest => number? false rest

/-- An item of an array and the items after it, up to the closing bracket. -/
def readItems? : Nat → List Char → Option (List Json × List Char)
  | 0, _ => none
  | steps + 1, text => do
    let (item, rest) ← readValue? steps text
    match skipSpace rest with
    | ',' :: rest =>
      let (items, rest) ← readItems? steps rest
      some (item :: items, rest)
    | ']' :: rest => some ([item], rest)
    | _ => none

/-- A member of an object and the members after it, up to the closing brace. -/
def readMembers? : Nat → List Char → Option (List (Option String × Json) × List Char)
  | 0, _ => none
  | steps + 1, text => do
    match skipSpace text with
    | '"' :: rest =>
      let (name, rest) ← stringTail? rest
      match skipSpace rest with
      | ':' :: rest =>
        let (value, rest) ← readValue? steps rest
        match skipSpace rest with
        | ',' :: rest =>
          let (members, rest) ← readMembers? steps rest
          some ((name, value) :: members, rest)
        | '}' :: rest => some ([(name, value)], rest)
        | _ => none
      | _ => none
    | _ => none

end

/-- The value that a text holds, with nothing but blanks around it. -/
def parse? (text : String) : Option Json :=
  let text := text.toList
  match readValue? (2 * text.length + 2) text with
  | some (value, rest) => if (skipSpace rest).isEmpty then some value else none
  | none => none

end DatasetAudit.Json
