import DatasetAudit.Yaml.Cursor
import DatasetAudit.Text.Hex
/-!
The text of scalars: plain, in quotes, and in blocks. Each reader starts at the scalar's first
character and gives its value and the place behind it. The loops count their steps from the
length of the text, which no scalar uses up.
-/

namespace DatasetAudit.Yaml

/-- How a scalar was written. -/
inductive ScalarStyle where
  | plain
  | singleQuoted
  | doubleQuoted
  | literal
  | folded
deriving DecidableEq, Repr

/-- What stands between two words of a scalar: blanks within a line, or line breaks with the
blanks around them. -/
structure Gap where
  blanks : List Char := []
  broken : Bool := false
  firstBreak : List Char := []
  moreBreaks : List Char := []

namespace Gap

/-- What a gap is in the value: a line break becomes a space, and further breaks stand for
themselves in its place. -/
def text (gap : Gap) : List Char :=
  if !gap.broken then gap.blanks
  else if gap.firstBreak == ['\n'] then
    if gap.moreBreaks.isEmpty then [' '] else gap.moreBreaks
  else gap.firstBreak ++ gap.moreBreaks

/-- Reads the rest of a gap. In front of a column that a plain scalar has to keep to, a tab is
refused. -/
def read? (indent : Int) : Nat → Gap → Cursor → Option (Gap × Cursor)
  | 0, _, _ => none
  | steps + 1, gap, c =>
    match c.rest with
    | [] => some (gap, c)
    | char :: _ =>
      if isBlank char then
        if gap.broken && (c.column : Int) < indent && char == '\t' then none
        else if gap.broken then read? indent steps gap (c.skip 1)
        else read? indent steps { gap with blanks := gap.blanks ++ [char] } (c.skip 1)
      else if isBreak char then
        let (text, next) := c.lineBreak
        if gap.broken then
          read? indent steps { gap with moreBreaks := gap.moreBreaks ++ text } next
        else read? indent steps { gap with blanks := [], broken := true, firstBreak := text } next
      else some (gap, c)

end Gap

/-- The number of hexadecimal digits that follow the letter of an escape. -/
def escapeLength (letter : Char) : Nat :=
  match letter with
  | 'x' => 2
  | 'u' => 4
  | 'U' => 8
  | _ => 0

/-- The character that an escape without digits stands for. -/
def simpleEscape? (letter : Char) : Option Char :=
  match letter with
  | '0' => some '\x00'
  | 'a' => some '\x07'
  | 'b' => some '\x08'
  | 't' => some '\t'
  | '\t' => some '\t'
  | 'n' => some '\n'
  | 'v' => some '\x0b'
  | 'f' => some '\x0c'
  | 'r' => some '\r'
  | 'e' => some '\x1b'
  | ' ' => some ' '
  | '"' => some '"'
  | '/' => some '/'
  | '\\' => some '\\'
  | 'N' => some '\x85'
  | '_' => some '\xa0'
  | 'L' => some '\u2028'
  | 'P' => some '\u2029'
  | _ => none

/-- The character of an escape's digits: a code point that is no surrogate. -/
def digitEscape? (digits : List Char) : Option Char := do
  let values ← digits.mapM Hex.value?
  let n := values.foldl (fun n v => n * 16 + v) 0
  if (0xD800 ≤ n && n ≤ 0xDFFF) || 0x10FFFF < n then none else some (Char.ofNat n)

/-- A scalar in quotes, read up to a gap or to the closing quote: its characters, whether an
escaped line break begins the gap, and the place behind them. -/
def quotedWord? (single : Bool) : Nat → Cursor → Option (List Char × Bool × Cursor)
  | 0, _ => none
  | steps + 1, c =>
    let next (char : Char) (c : Cursor) : Option (List Char × Bool × Cursor) :=
      (quotedWord? single steps c).map fun (text, broken, c) => (char :: text, broken, c)
    match c.rest with
    | [] => some ([], false, c)
    | char :: rest =>
      if isBlank char || isBreak char then some ([], false, c)
      else if single then
        if char == '\'' then
          if rest.head? == some '\'' then next '\'' (c.skip 2) else some ([], false, c)
        else next char (c.skip 1)
      else if char == '"' then some ([], false, c)
      else if char == '\\' then
        match rest with
        | [] => none
        | letter :: digits =>
          if isBreak letter then some ([], true, (c.skip 1).lineBreak.2)
          else
            match escapeLength letter with
            | 0 => (simpleEscape? letter).bind fun char => next char (c.skip 2)
            | length =>
              if digits.length < length then none
              else
                (digitEscape? (digits.take length)).bind fun char => next char (c.skip (2 + length))
      else next char (c.skip 1)

/-- A scalar in quotes behind its first quote. A line in it may not look like the mark of a
document. -/
def quotedTail? (single : Bool) : Nat → Cursor → Option (List Char × Cursor)
  | 0, _ => none
  | steps + 1, c =>
    if c.atDocumentMark '-' || c.atDocumentMark '.' || c.rest.isEmpty then none
    else do
      let (word, broken, c) ← quotedWord? single (steps + 1) c
      if c.begins (if single then '\'' else '"') then some (word, c.skip 1)
      else
        let (gap, c) ← Gap.read? 0 (steps + 1) { broken } c
        let (text, c) ← quotedTail? single steps c
        some (word ++ gap.text ++ text, c)

/-- A scalar in quotes. -/
def quoted? (single : Bool) (c : Cursor) : Option (List Char × Cursor) :=
  quotedTail? single (c.rest.length + 1) (c.skip 1)

/-- Whether a plain scalar ends in front of the characters here. -/
def endsPlain (inFlow : Bool) (c : Cursor) : Bool :=
  (c.begins ':' && c.endsWordAt 1) || (inFlow && c.isAt 0 ([',', '[', ']', '{', '}'].contains ·))

/-- Whether a colon in a flow collection is followed by a character that it may not touch. -/
def touchesFlow (inFlow : Bool) (c : Cursor) : Bool :=
  inFlow && c.begins ':' && c.isAt 1 ([',', '?', '[', ']', '{', '}'].contains ·)

/-- A plain scalar read up to a gap or to its end. -/
def plainWord? (inFlow : Bool) : Nat → Cursor → Option (List Char × Cursor)
  | 0, _ => none
  | steps + 1, c =>
    match c.rest with
    | [] => some ([], c)
    | char :: _ =>
      if isBlank char || isBreak char then some ([], c)
      else if touchesFlow inFlow c then none
      else if endsPlain inFlow c then some ([], c)
      else (plainWord? inFlow steps (c.skip 1)).map fun (text, c) => (char :: text, c)

/-- A plain scalar from a word on that may follow a gap: its text with that gap, whether it ends
behind a line break, and the place there. -/
def plainTail? (inFlow : Bool) (indent : Int) :
    Nat → Gap → Cursor → Option (List Char × Bool × Cursor)
  | 0, _, _ => none
  | steps + 1, gap, c =>
    if c.atDocumentMark '-' || c.atDocumentMark '.' || c.begins '#' then some ([], gap.broken, c)
    else do
      let (word, next) ← plainWord? inFlow (steps + 1) c
      if word.isEmpty then some ([], gap.broken, next)
      else
        let text := gap.text ++ word
        if !next.isAt 0 (fun char => isBlank char || isBreak char) then some (text, false, next)
        else
          let (gap, next) ← Gap.read? indent (steps + 1) {} next
          if !inFlow && (next.column : Int) < indent then some (text, gap.broken, next)
          else
            let (more, broken, next) ← plainTail? inFlow indent steps gap next
            some (text ++ more, broken, next)

/-- A plain scalar inside a block of some indentation. -/
def plain? (inFlow : Bool) (indent : Int) (c : Cursor) : Option (List Char × Bool × Cursor) :=
  plainTail? inFlow (indent + 1) (c.rest.length + 1) {} c

/-- What happens to the line breaks at the end of a block. -/
inductive Chomping where
  | strip
  | clip
  | keep
deriving DecidableEq, Repr

/-- The sign that stands for a way of chomping. -/
def chomping? (c : Cursor) : Option Chomping :=
  if c.begins '+' then some .keep else if c.begins '-' then some .strip else none

/-- The head of a block behind its first character: a way of chomping and a number of spaces in
either order, each of which may be missing. -/
def blockHead? (c : Cursor) : Option (Chomping × Option Nat × Cursor) :=
  let spaces? (c : Cursor) : Option (Option Nat × Cursor) :=
    match c.rest with
    | char :: _ =>
      if !char.isDigit then some (none, c)
      else if char == '0' then none
      else some (some (char.toNat - '0'.toNat), c.skip 1)
    | [] => some (none, c)
  match chomping? c with
  | some chomping => (spaces? (c.skip 1)).map fun (spaces, c) => (chomping, spaces, c)
  | none =>
    (spaces? c).map fun (spaces, c) =>
      match spaces, chomping? c with
      | some n, some chomping => (chomping, some n, c.skip 1)
      | _, _ => (.clip, spaces, c)

/-- The empty lines and the indentation in front of a line of a block: the line breaks, the
widest indentation, and the place behind them. A known indentation is not read beyond, and in an
unknown one a tab is refused. -/
def blockBreaks? (indent : Option Nat) : Nat → Nat → Cursor → Option (List Char × Nat × Cursor)
  | 0, _, _ => none
  | steps + 1, widest, c =>
    let spaces := c.rest.takeWhile (· == ' ')
    let count := match indent with
      | none => spaces.length
      | some n => min spaces.length (n - c.column)
    let c := c.skip count
    let widest := max widest c.column
    if (indent.all fun n => decide (c.column < n)) && c.begins '\t' then none
    else if c.isAt 0 isBreak then
      let (text, c) := c.lineBreak
      (blockBreaks? indent steps widest c).map fun (more, widest, c) => (text ++ more, widest, c)
    else some ([], widest, c)

/-- The lines of a block from one that is indented as the block: the value with the breaks before
it, and what chomping decides about, the last break and the empty lines behind it. -/
def blockLines? (literal : Bool) (indent : Nat) :
    Nat → Bool → List Char → List Char → Cursor →
      Option (List Char × List Char × List Char × Cursor)
  | 0, _, _, _, _ => none
  | steps + 1, afterBlank, lastBreak, emptyLines, c =>
    if c.column != indent || c.rest.isEmpty then some ([], lastBreak, emptyLines, c)
    else do
      let startsBlank := c.isAt 0 isBlank
      let joined :=
        if !literal && lastBreak == ['\n'] && !afterBlank && !startsBlank then
          if emptyLines.isEmpty then [' '] else []
        else lastBreak
      let (line, c) := c.span (!isBreak ·)
      let (lineEnd, c) := c.lineBreak
      let (breaks, _, c) ← blockBreaks? (some indent) (steps + 1) 0 c
      let (text, lastBreak, tail, c) ← blockLines? literal indent steps startsBlank lineEnd breaks c
      some (joined ++ emptyLines ++ line ++ text, lastBreak, tail, c)

/-- A block scalar inside a block of some indentation. Without a number in its head it is indented
as its first line that is not empty, and at least one column further than the block around it. -/
def block? (literal : Bool) (outer : Int) (c : Cursor) : Option (List Char × Cursor) := do
  let steps := c.rest.length + 1
  let (chomping, spaces, c) ← blockHead? (c.skip 1)
  let c := c.skipComment
  if !c.atLineEnd then none
  else
    let (_, c) := c.lineBreak
    let known := spaces.map fun n => if 0 ≤ outer then outer.toNat + n else n
    let (breaks, widest, c) ← blockBreaks? known steps 0 c
    let indent := known.getD (max widest (max (outer + 1).toNat 1))
    let (text, lastBreak, emptyLines, c) ← blockLines? literal indent steps false [] breaks c
    let tail := match chomping with
      | .strip => []
      | .clip => lastBreak
      | .keep => lastBreak ++ emptyLines
    some (text ++ tail, c)

end DatasetAudit.Yaml
