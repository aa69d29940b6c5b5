import DatasetAudit.Yaml.Scalar
import DatasetAudit.Text.Utf8
/-!
A YAML text as a list of tokens. Indentation becomes tokens that open and close blocks. A key that
is recognised by the colon behind it gets its tokens afterwards, at the place where it began.
-/

namespace DatasetAudit.Yaml

/-- A piece of a YAML text. -/
inductive Token where
  | version (major minor : Nat)
  | tagHandle (handle expansion : String)
  | documentStart
  | documentEnd
  | blockSequenceStart
  | blockMappingStart
  | blockEnd
  | flowSequenceStart
  | flowSequenceEnd
  | flowMappingStart
  | flowMappingEnd
  | blockEntry
  | flowEntry
  | key
  | value
  | reference (name : String)
  | anchor (name : String)
  | tag (handle suffix : String)
  | scalar (text : String) (style : ScalarStyle)
deriving DecidableEq, Repr

/-- A place where a key may have begun: the token that it begins with, and whether the block
around it has room for nothing but a key there. -/
structure KeyCandidate where
  required : Bool
  token : Nat
  start : Cursor

/-- The state between two tokens. `keys` has one candidate for each open flow collection and one
for the block around them, the innermost first. -/
structure Scanner where
  cursor : Cursor
  tokens : Array Token := #[]
  indent : Int := -1
  outerIndents : List Int := []
  flowLevel : Nat := 0
  keyAllowed : Bool := true
  keys : List (Option KeyCandidate) := [none]

namespace Scanner

/-- Adds a token at the end and moves on. -/
def emit (s : Scanner) (token : Token) (cursor : Cursor) : Scanner :=
  { s with tokens := s.tokens.push token, cursor }

/-- Whether the place is inside a flow collection. -/
def inFlow (s : Scanner) : Bool :=
  s.flowLevel != 0

/-- Gives up the candidate of the innermost level; a key that had to be there is missed. -/
def dropKey? (s : Scanner) : Option Scanner :=
  match s.keys with
  | some key :: rest => if key.required then none else some { s with keys := none :: rest }
  | _ => some s

/-- Notes that a key may begin here. -/
def noteKey? (s : Scanner) : Option Scanner :=
  if !s.keyAllowed then some s
  else do
    let s ← s.dropKey?
    let key : KeyCandidate :=
      { required := !s.inFlow && s.indent == s.cursor.column
        token := s.tokens.size
        start := s.cursor }
    some { s with keys := some key :: s.keys.drop 1 }

/-- A key lies on one line and has at most 1024 characters; candidates further back are given up. -/
def dropStaleKeys? (s : Scanner) : Option Scanner := do
  let keys ← s.keys.mapM fun candidate =>
    match candidate with
    | some key =>
      if key.start.line < s.cursor.line || key.start.index + 1024 < s.cursor.index then
        if key.required then none else some none
      else some (some key)
    | none => some none
  some { s with keys }

/-- Opens a block at a column, if the column is further right than the block around it. Its token
goes in front of the token with the given number. -/
def openBlock (s : Scanner) (column : Nat) (position : Nat) (token : Token) : Scanner :=
  if !s.inFlow && s.indent < column then
    { s with
      tokens := s.tokens.insertIdxIfInBounds position token
      indent := column
      outerIndents := s.indent :: s.outerIndents }
  else s

/-- Closes the blocks that are further right than a column, innermost first. -/
def closeBlocksFrom (column : Int) (tokens : Array Token) (indent : Int) :
    List Int → Array Token × Int × List Int
  | [] => (tokens, indent, [])
  | outer :: rest =>
    if column < indent then closeBlocksFrom column (tokens.push .blockEnd) outer rest
    else (tokens, indent, outer :: rest)

/-- Closes the blocks that are further right than a column. -/
def closeBlocks (s : Scanner) (column : Int) : Scanner :=
  if s.inFlow then s
  else
    let (tokens, indent, outerIndents) := closeBlocksFrom column s.tokens s.indent s.outerIndents
    { s with tokens, indent, outerIndents }

/-- Passes over blanks, comments and line breaks. At the beginning of a line in a block, where a
key may begin, a tab is no blank. -/
def skipToToken : Nat → Scanner → Scanner
  | 0, s => s
  | steps + 1, s =>
    let c := s.cursor
    let c := if c.column == 0 && c.begins byteOrderMark then c.skip 1 else c
    let c := c.skipWhile fun char => char == ' ' || ((s.inFlow || !s.keyAllowed) && char == '\t')
    let c := if c.begins '#' then c.skipWhile (!isBreak ·) else c
    if c.isAt 0 isBreak then
      skipToToken steps
        { s with cursor := c.lineBreak.2, keyAllowed := s.keyAllowed || !s.inFlow }
    else { s with cursor := c }

/-- A number of a version directive: at most nine digits. -/
def versionNumber? (c : Cursor) : Option (Nat × Cursor) :=
  let (digits, c) := c.span Char.isDigit
  if digits.isEmpty || 9 < digits.length then none
  else some (digits.foldl (fun n d => n * 10 + (d.toNat - '0'.toNat)) 0, c)

/-- The handle of a tag: an exclamation mark, word characters, and another mark. In a tag the last
mark may be missing, in a directive only behind a mark alone. -/
def tagHandle? (inDirective : Bool) (c : Cursor) : Option (List Char × Cursor) :=
  if !c.begins '!' then none
  else
    let (word, c) := (c.skip 1).span isWordChar
    if c.begins '!' then some ('!' :: word ++ ['!'], c.skip 1)
    else if inDirective && !word.isEmpty then none
    else some ('!' :: word, c)

/-- A character that may stand in a tag. -/
def isTagChar (verbatim : Bool) (c : Char) : Bool :=
  isWordChar c || [';', '/', '?', ':', '@', '&', '=', '+', '$', '.', '%', '!', '~', '*', '\'', '(',
    ')'].contains c || (verbatim && [',', '[', ']'].contains c)

/-- The byte written by a percent sign and two hexadecimal digits. -/
def escapedByte? : List Char → Option (UInt8 × List Char)
  | '%' :: high :: low :: rest => do
    let high ← Hex.value? high
    let low ← Hex.value? low
    some (UInt8.ofNat (high * 16 + low), rest)
  | _ => none

/-- How many bytes the first byte of a character announces, itself included. -/
def characterSize? (lead : UInt8) : Option Nat :=
  if lead < 0x80 then some 1
  else if lead &&& 0xE0 == 0xC0 then some 2
  else if lead &&& 0xF0 == 0xE0 then some 3
  else if lead &&& 0xF8 == 0xF0 then some 4
  else none

/-- So many bytes that continue a character, each escaped. -/
def escapedTail? : Nat → List Char → Option (List UInt8 × List Char)
  | 0, text => some ([], text)
  | count + 1, text => do
    let (byte, text) ← escapedByte? text
    if byte &&& 0xC0 != 0x80 then none
    else
      let (bytes, text) ← escapedTail? count text
      some (byte :: bytes, text)

/-- The text of a tag with its escapes replaced by the characters they stand for. -/
def unescapeTag? : Nat → List Char → Option (List Char)
  | 0, _ => none
  | _ + 1, [] => some []
  | steps + 1, '%' :: rest => do
    let (lead, text) ← escapedByte? ('%' :: rest)
    let size ← characterSize? lead
    let (tail, text) ← escapedTail? (size - 1) text
    let more ← unescapeTag? steps text
    some (Utf8.decodeLossyChars (lead :: tail) ++ more)
  | steps + 1, c :: rest => (unescapeTag? steps rest).map (c :: ·)

/-- The text of a tag behind a head. The head counts as text but for its first character. -/
def tagText? (verbatim : Bool) (head : List Char) (c : Cursor) : Option (List Char × Cursor) := do
  let (taken, c) := c.span (isTagChar verbatim)
  if head.isEmpty && taken.isEmpty then none
  else
    let text ← unescapeTag? (taken.length + 1) taken
    some (head.drop 1 ++ text, c)

/-- A directive, up to the beginning of the next line. -/
def directive? (c : Cursor) : Option (Token × Cursor) := do
  let (name, c) := (c.skip 1).span isWordChar
  if name.isEmpty || !c.endsWordAt 0 then none
  else
    let c := c.skipWhile isBlank
    let (token, c) ←
      if name == "YAML".toList then do
        let (major, c) ← versionNumber? c
        if !c.begins '.' then none
        else
          let (minor, c) ← versionNumber? (c.skip 1)
          some (Token.version major minor, c)
      else if name == "TAG".toList then do
        let (handle, c) ← tagHandle? true c
        if !c.isAt 0 isBlank then none
        else
          let (expansion, c) ← tagText? true [] (c.skipWhile isBlank)
          if !c.endsWordAt 0 then none
          else some (Token.tagHandle (String.ofList handle) (String.ofList expansion), c)
      else none
    let c := c.skipComment
    if c.atLineEnd then some (token, c.lineBreak.2) else none

/-- The name of an anchor or an alias, behind its first character. -/
def anchorName? (c : Cursor) : Option (String × Cursor) :=
  let (name, c) := (c.skip 1).span isWordChar
  if name.isEmpty ||
      !(c.endsWordAt 0 || c.isAt 0 (['?', ':', ',', ']', '}', '%', '@', '\x60'].contains ·)) then
    none
  else some (String.ofList name, c)

/-- The handle and the suffix of a tag. A verbatim tag has no handle; a tag without a second mark
has the handle `!`, and the mark alone is a suffix. -/
def tagParts? (c : Cursor) : Option (List Char × List Char × Cursor) :=
  if c.isAt 1 (· == '<') then do
    let (text, c) ← tagText? true [] (c.skip 2)
    if c.begins '>' then some ([], text, c.skip 1) else none
  else do
    let (handle, c) ← tagHandle? false c
    if 1 < handle.length && handle.getLast? == some '!' then
      let (text, c) ← tagText? false [] c
      some (handle, text, c)
    else
      let (text, c) ← tagText? false handle c
      if text.isEmpty then some ([], ['!'], c) else some (['!'], text, c)

/-- A tag, which ends at a blank, at the end of the line, or in a flow collection at a comma. -/
def tag? (inFlow : Bool) (c : Cursor) : Option (Token × Cursor) := do
  let (handle, suffix, c) ← tagParts? c
  if (inFlow && c.begins ',') || c.endsWordAt 0 then
    some (.tag (String.ofList handle) (String.ofList suffix), c)
  else none

/-- Ends all blocks, in front of a directive or the mark of a document. -/
def endBlocks? (s : Scanner) : Option Scanner := do
  let s ← (s.closeBlocks (-1)).dropKey?
  some { s with keyAllowed := false }

/-- The token that opens a flow collection. -/
def openFlow? (s : Scanner) (token : Token) : Option Scanner := do
  let s ← s.noteKey?
  let s := { s with flowLevel := s.flowLevel + 1, keys := none :: s.keys, keyAllowed := true }
  some (s.emit token (s.cursor.skip 1))

/-- The token that closes a flow collection. -/
def closeFlow? (s : Scanner) (token : Token) : Option Scanner := do
  let s ← s.dropKey?
  let s := if s.inFlow then { s with flowLevel := s.flowLevel - 1, keys := s.keys.drop 1 } else s
  some ({ s with keyAllowed := false }.emit token (s.cursor.skip 1))

/-- The comma between the parts of a flow collection. -/
def flowEntry? (s : Scanner) : Option Scanner := do
  let s ← s.dropKey?
  some ({ s with keyAllowed := true }.emit .flowEntry (s.cursor.skip 1))

/-- The hyphen of a block sequence, which stands where a key could. -/
def blockEntry? (s : Scanner) : Option Scanner :=
  if !s.inFlow && !s.keyAllowed then none
  else do
    let s := s.openBlock s.cursor.column s.tokens.size .blockSequenceStart
    let s ← s.dropKey?
    some ({ s with keyAllowed := true }.emit .blockEntry (s.cursor.skip 1))

/-- The question mark in front of a key. -/
def key? (s : Scanner) : Option Scanner :=
  if !s.inFlow && !s.keyAllowed then none
  else do
    let s := s.openBlock s.cursor.column s.tokens.size .blockMappingStart
    let s ← s.dropKey?
    some ({ s with keyAllowed := !s.inFlow }.emit .key (s.cursor.skip 1))

/-- The colon in front of a value. If a key may have begun before it, that key is one. -/
def value? (s : Scanner) : Option Scanner :=
  match s.keys with
  | some key :: rest =>
    let s := { s with tokens := s.tokens.insertIdxIfInBounds key.token .key }
    let s := s.openBlock key.start.column key.token .blockMappingStart
    some ({ s with keys := none :: rest, keyAllowed := false }.emit .value (s.cursor.skip 1))
  | _ =>
    if !s.inFlow && !s.keyAllowed then none
    else
      let s := s.openBlock s.cursor.column s.tokens.size .blockMappingStart
      some ({ s with keyAllowed := !s.inFlow }.emit .value (s.cursor.skip 1))

/-- A token that may begin a key and does not let another begin behind it. -/
def inKey? (s : Scanner) (read : Cursor → Option (Token × Cursor)) : Option Scanner := do
  let s ← s.noteKey?
  let (token, c) ← read s.cursor
  some ({ s with keyAllowed := false }.emit token c)

/-- A block scalar, behind which a key may begin. -/
def blockScalar? (s : Scanner) (literal : Bool) : Option Scanner := do
  let s ← s.dropKey?
  let (text, c) ← block? literal s.indent s.cursor
  some ({ s with keyAllowed := true }.emit
    (.scalar (String.ofList text) (if literal then .literal else .folded)) c)

/-- A scalar in quotes. -/
def quotedScalar? (s : Scanner) (single : Bool) : Option Scanner :=
  s.inKey? fun c => (quoted? single c).map fun (text, c) =>
    (.scalar (String.ofList text) (if single then .singleQuoted else .doubleQuoted), c)

/-- A plain scalar. Where it ends behind a line break, a key may begin. -/
def plainScalar? (s : Scanner) : Option Scanner := do
  let s ← s.noteKey?
  let (text, broken, c) ← plain? s.inFlow s.indent s.cursor
  some ({ s with keyAllowed := broken }.emit (.scalar (String.ofList text) .plain) c)

/-- The characters that begin something other than a plain scalar, wherever they stand. -/
def plainStoppers : List Char :=
  [',', '[', ']', '{', '}', '#', '&', '*', '!', '|', '>', '\'', '"', '%', '@', '\x60']

/-- Whether a plain scalar may begin here. -/
def mayBeginPlain (s : Scanner) (first : Char) : Bool :=
  let c := s.cursor
  if first == '-' then !c.isAt 1 isBlank
  else if first == '?' || first == ':' then !s.inFlow && !c.endsWordAt 1
  else !plainStoppers.contains first && !c.endsWordAt 0

/-- The next token, in front of which the text is neither blank nor at its end. -/
def token? (s : Scanner) (first : Char) : Option Scanner :=
  let c := s.cursor
  let alone := c.endsWordAt 1
  if c.column == 0 && first == '%' then do
    let s ← s.endBlocks?
    let (token, c) ← directive? s.cursor
    some (s.emit token c)
  else if c.atDocumentMark '-' then (s.endBlocks?).map fun s => s.emit .documentStart (c.skip 3)
  else if c.atDocumentMark '.' then (s.endBlocks?).map fun s => s.emit .documentEnd (c.skip 3)
  else if first == '[' then s.openFlow? .flowSequenceStart
  else if first == '{' then s.openFlow? .flowMappingStart
  else if first == ']' then s.closeFlow? .flowSequenceEnd
  else if first == '}' then s.closeFlow? .flowMappingEnd
  else if first == ',' then s.flowEntry?
  else if first == '-' && alone then s.blockEntry?
  else if first == '?' && (s.inFlow || alone) then s.key?
  else if first == ':' && (s.inFlow || alone) then s.value?
  else if first == '*' then
    s.inKey? fun c => (anchorName? c).map fun (name, c) => (.reference name, c)
  else if first == '&' then
    s.inKey? fun c => (anchorName? c).map fun (name, c) => (.anchor name, c)
  else if first == '!' then s.inKey? (tag? s.inFlow)
  else if first == '|' && !s.inFlow then s.blockScalar? true
  else if first == '>' && !s.inFlow then s.blockScalar? false
  else if first == '\'' then s.quotedScalar? true
  else if first == '"' then s.quotedScalar? false
  else if s.mayBeginPlain first then s.plainScalar?
  else none

/-- All tokens from here to the end of the text, where the blocks that are open end. -/
def run? : Nat → Scanner → Option (List Token)
  | 0, _ => none
  | steps + 1, s => do
    let s ← (skipToToken (s.cursor.rest.length + 1) s).dropStaleKeys?
    let s := s.closeBlocks s.cursor.column
    match s.cursor.rest with
    | [] =>
      let s ← s.endBlocks?
      some s.tokens.toList
    | first :: _ => (s.token? first).bind (run? steps)

end Scanner

/-- The tokens of a text; none if the text is no YAML. -/
def Token.ofText? (text : String) : Option (List Token) :=
  let c := Cursor.start text.toList
  if c.rest.all isAllowed then Scanner.run? (c.rest.length + 2) { cursor := c } else none

end DatasetAudit.Yaml
