import DatasetAudit.Image.Header
/-!
Decoders: what can be learnt from the bytes of an image. Not being able to say something is kept
apart from finding the image broken. The one given here reads headers; one that decodes pixels is a
`Decoder` like any other.
-/

namespace DatasetAudit

/-- What a decoder says about the dimensions of an image. -/
inductive Probe where
  | dimensions (size : Dimensions)
  /-- The format is not one that the decoder knows, which is no defect. -/
  | unknown
  | failed (reason : String)
deriving DecidableEq, Repr

/-- What a decoder says about the perceptual hash of an image. -/
inductive HashResult where
  | hashed (hash : UInt64)
  /-- The decoder computes no such hashes. -/
  | unavailable
  | failed (reason : String)
deriving DecidableEq, Repr

/-- A way to look into images. `perceptualHashing` says whether it ever computes a hash. -/
structure Decoder where
  probe : List UInt8 → Probe
  perceptualHash : List UInt8 → HashResult
  perceptualHashing : Bool

namespace Decoder

/-- The dimensions in the header of a PNG or JPEG file. -/
def probeHeader (bytes : List UInt8) : Probe :=
  if Header.pngSignature.isPrefixOf bytes then
    match Header.pngDimensions? bytes with
    | some size => .dimensions size
    | none => .failed "invalid png header"
  else if Header.jpegStart.isPrefixOf bytes then
    match Header.jpegDimensions? bytes with
    | some size => .dimensions size
    | none => .failed "jpeg size parse failed"
  else .unknown

/-- The decoder that reads headers only and computes no hash. -/
def header : Decoder where
  probe := probeHeader
  perceptualHash _ := .unavailable
  perceptualHashing := false

end Decoder

end DatasetAudit
