/-!
Image dimensions read from file headers, without decoding a pixel: the `IHDR` chunk of a PNG
file and the first frame header of a JPEG file.
-/

namespace DatasetAudit

/-- Width and height of an image in pixels. -/
structure Dimensions where
  width : UInt32
  height : UInt32
deriving DecidableEq, Repr

namespace Header

/-- The eight bytes that every PNG file begins with. -/
def pngSignature : List UInt8 :=
  [0x89, 0x50, 0x4E, 0x47, 0x0D, 0x0A, 0x1A, 0x0A]

/-- The two bytes that every JPEG file begins with. -/
def jpegStart : List UInt8 :=
  [0xFF, 0xD8]

/-- A number of two bytes, most significant first. -/
def bigEndian16 (high low : UInt8) : UInt32 :=
  (high.toUInt32 <<< 8) ||| low.toUInt32

/-- A number of four bytes, most significant first. -/
def bigEndian32 (b0 b1 b2 b3 : UInt8) : UInt32 :=
  (bigEndian16 b0 b1 <<< 16) ||| bigEndian16 b2 b3

/-- Width and height from the `IHDR` chunk, which a PNG file has at byte 12. -/
def pngDimensions? (bytes : List UInt8) : Option Dimensions :=
  match bytes.drop 12 with
  | 0x49 :: 0x48 :: 0x44 :: 0x52 :: w0 :: w1 :: w2 :: w3 :: h0 :: h1 :: h2 :: h3 :: _ =>
    some ⟨bigEndian32 w0 w1 w2 w3, bigEndian32 h0 h1 h2 h3⟩
  | _ => none

/-- The markers of a frame header, which carries the image's dimensions. -/
def isFrameMarker (marker : UInt8) : Bool :=
  [0xC0, 0xC1, 0xC2, 0xC3, 0xC5, 0xC6, 0xC7, 0xC9, 0xCA, 0xCB, 0xCD, 0xCE, 0xCF].contains marker

/-- The markers that stand alone, without a length and a payload. -/
def isBareMarker (marker : UInt8) : Bool :=
  marker == 0xD8 || marker == 0xD9

/-- Walks over the items of a JPEG file behind its first two bytes until the first frame header.
A byte other than `FF` is passed over, a bare marker too, and any other segment by its length. The
walk gives up when fewer than ten bytes are left or a segment does not fit. -/
def frameDimensions? : List UInt8 → Option Dimensions
  | lead :: marker :: length1 :: length0 :: precision :: h1 :: h0 :: w1 :: w0 :: last :: rest =>
    let body := length1 :: length0 :: precision :: h1 :: h0 :: w1 :: w0 :: last :: rest
    if lead != 0xFF then frameDimensions? (marker :: body)
    else if isBareMarker marker then frameDimensions? body
    else
      let length := (bigEndian16 length1 length0).toNat
      if length < 2 || body.length < length then none
      else if isFrameMarker marker then some ⟨bigEndian16 w1 w0, bigEndian16 h1 h0⟩
      else frameDimensions? (body.drop length)
  | _ => none
termination_by bytes => bytes.length
decreasing_by all_goals simp <;> omega

/-- Width and height from the first frame header of a JPEG file. -/
def jpegDimensions? (bytes : List UInt8) : Option Dimensions :=
  frameDimensions? (bytes.drop 2)

end Header

end DatasetAudit
