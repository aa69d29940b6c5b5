/-!
Bytes as text. `encode` writes a string as UTF-8, `decode?` reads well-formed UTF-8 only, and
`decodeLossy` reads any bytes, writing U+FFFD for each longest piece that begins a character but
does not complete it.
-/

namespace DatasetAudit.Utf8

/-- The UTF-8 bytes of a string. -/
def encode (text : String) : List UInt8 :=
  text.toUTF8.data.toList

/-- The string that has these UTF-8 bytes, if they are well formed. -/
def decode? (bytes : List UInt8) : Option String :=
  String.fromUTF8? ⟨bytes.toArray⟩

/-- A byte that may follow the first byte of a character. -/
def isContinuation (b : UInt8) : Bool :=
  0x80 ≤ b && b ≤ 0xBF

/-- What the first byte of a character announces: how many bytes follow it, and the range in
which the next byte lies. The narrow ranges refuse long forms, surrogates and values past
U+10FFFF. -/
def announced? (lead : UInt8) : Option (Nat × UInt8 × UInt8) :=
  if 0xC2 ≤ lead && lead ≤ 0xDF then some (1, 0x80, 0xBF)
  else if lead == 0xE0 then some (2, 0xA0, 0xBF)
  else if lead == 0xED then some (2, 0x80, 0x9F)
  else if 0xE1 ≤ lead && lead ≤ 0xEF then some (2, 0x80, 0xBF)
  else if lead == 0xF0 then some (3, 0x90, 0xBF)
  else if 0xF1 ≤ lead && lead ≤ 0xF3 then some (3, 0x80, 0xBF)
  else if lead == 0xF4 then some (3, 0x80, 0x8F)
  else none

/-- How many of the bytes after `lead` belong to the same piece: the continuation bytes that
could still complete the character, at most as many as were announced. -/
def pieceTail (count : Nat) (low high : UInt8) : List UInt8 → Nat
  | [] => 0
  | b :: rest =>
    match count with
    | 0 => 0
    | count + 1 => if low ≤ b && b ≤ high then 1 + pieceTail count 0x80 0xBF rest else 0

/-- The code point written by a first byte that announced `count` more bytes, and those bytes. -/
def codePoint (count : Nat) (lead : UInt8) (tail : List UInt8) : Nat :=
  tail.foldl (fun n b => n * 64 + (b.toNat - 0x80)) (lead.toNat % (1 <<< (6 - count)))

/-- The character that takes the place of bytes that are not text. -/
def replacement : Char := '\uFFFD'

/-- One step of lossy reading: the character that the bytes begin with, or U+FFFD, and how many
bytes it took, at least one. -/
def nextChar (lead : UInt8) (rest : List UInt8) : Char × Nat :=
  if lead < 0x80 then (Char.ofNat lead.toNat, 1)
  else
    match announced? lead with
    | none => (replacement, 1)
    | some (count, low, high) =>
      let taken := pieceTail count low high rest
      if taken = count then (Char.ofNat (codePoint count lead (rest.take taken)), 1 + taken)
      else (replacement, 1 + taken)

/-- The characters of any bytes, U+FFFD standing for each longest piece that is not one. -/
def decodeLossyChars : List UInt8 → List Char
  | [] => []
  | lead :: rest =>
    let (c, size) := nextChar lead rest
    c :: decodeLossyChars (rest.drop (size - 1))
termination_by bytes => bytes.length
decreasing_by simp only [List.length_cons, List.length_drop]; omega

/-- Any bytes as text, U+FFFD standing for each longest piece that is not well formed. -/
def decodeLossy (bytes : List UInt8) : String :=
  String.ofList (decodeLossyChars bytes)

end DatasetAudit.Utf8
