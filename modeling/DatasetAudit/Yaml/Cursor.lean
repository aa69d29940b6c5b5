/-!
A place in a YAML text: the characters that are left, and the line and column they begin at. The
classes of characters that the format tells apart, and the steps that move a place forward.
-/

namespace DatasetAudit.Yaml

/-- A character that ends a line. -/
def isBreak (c : Char) : Bool :=
  c == '\n' || c == '\r' || c == '\x85' || c == '\u2028' || c == '\u2029'

/-- A space or a tab. -/
def isBlank (c : Char) : Bool :=
  c == ' ' || c == '\t'

/-- A character of anchors, tag handles and directive names. -/
def isWordChar (c : Char) : Bool :=
  c.isAlphanum || c == '_' || c == '-'

/-- The characters that a YAML text may consist of. -/
def isAllowed (c : Char) : Bool :=
  let n := c.toNat
  n == 0x09 || n == 0x0A || n == 0x0D || (0x20 ≤ n && n ≤ 0x7E) || n == 0x85 ||
    (0xA0 ≤ n && n ≤ 0xD7FF) || (0xE000 ≤ n && n ≤ 0xFFFD) || 0x10000 ≤ n

/-- The mark that may stand at the start of a text or of a line. -/
def byteOrderMark : Char := '\uFEFF'

/-- A place in a text. Lines and columns are counted from zero, `index` counts all characters
before the place. -/
structure Cursor where
  rest : List Char
  index : Nat
  line : Nat
  column : Nat

namespace Cursor

/-- The place where a text begins, behind a byte order mark. -/
def start (text : List Char) : Cursor :=
  match text with
  | c :: rest => ⟨if c == byteOrderMark then rest else text, 0, 0, 0⟩
  | [] => ⟨[], 0, 0, 0⟩

/-- The character that stands so many characters ahead. -/
def peek? (c : Cursor) (ahead : Nat) : Option Char :=
  c.rest[ahead]?

/-- Whether the text begins with a character here. -/
def begins (c : Cursor) (char : Char) : Bool :=
  c.rest.head? == some char

/-- Whether a character of a class stands so many characters ahead. -/
def isAt (c : Cursor) (ahead : Nat) (p : Char → Bool) : Bool :=
  (c.peek? ahead).any p

/-- Whether a blank, the end of a line or the end of the text is so many characters ahead. -/
def endsWordAt (c : Cursor) (ahead : Nat) : Bool :=
  match c.peek? ahead with
  | none => true
  | some char => isBlank char || isBreak char

/-- Whether the end of a line or of the text is here. -/
def atLineEnd (c : Cursor) : Bool :=
  match c.rest with
  | [] => true
  | char :: _ => isBreak char

/-- The place so many characters further on the same line. -/
def skip (c : Cursor) (count : Nat) : Cursor :=
  { c with rest := c.rest.drop count, index := c.index + count, column := c.column + count }

/-- The characters of a class that stand here, and the place behind them. -/
def span (c : Cursor) (p : Char → Bool) : List Char × Cursor :=
  let taken := c.rest.takeWhile p
  (taken, c.skip taken.length)

/-- The place behind the characters of a class. -/
def skipWhile (c : Cursor) (p : Char → Bool) : Cursor :=
  (c.span p).2

/-- The end of a line here, as it counts in a value, and the place where the next line begins. A
carriage return and a line feed together end one line. -/
def lineBreak (c : Cursor) : List Char × Cursor :=
  let next (count : Nat) : Cursor :=
    { rest := c.rest.drop count, index := c.index + count, line := c.line + 1, column := 0 }
  match c.rest with
  | '\r' :: '\n' :: _ => (['\n'], next 2)
  | char :: _ =>
    if char == '\u2028' || char == '\u2029' then ([char], next 1)
    else if isBreak char then (['\n'], next 1)
    else ([], c)
  | [] => ([], c)

/-- Whether three hyphens or three dots stand alone at the beginning of a line here. -/
def atDocumentMark (c : Cursor) (mark : Char) : Bool :=
  c.column == 0 && c.rest.take 3 == [mark, mark, mark] && c.endsWordAt 3

/-- The place behind blanks and a comment, up to the end of the line. -/
def skipComment (c : Cursor) : Cursor :=
  let c := c.skipWhile isBlank
  if c.begins '#' then c.skipWhile (!isBreak ·) else c

end Cursor

end DatasetAudit.Yaml
