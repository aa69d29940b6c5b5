import DatasetAudit.Image.Decoder
import DatasetAudit.Proofs.Except
import Mathlib.Data.List.Basic

/-! The items of a JPEG file. The walk to the frame header passes over whole items, so what stands in
a payload does not matter to it, and it finds a size exactly if a frame header follows on items. It
reads no byte that is not there. -/

namespace DatasetAudit.Header

section Walk

/-- The byte at an offset, or the offset itself if there is none. -/
def byteAt (bytes : List UInt8) (offset : Nat) : Except Nat UInt8 :=
  match bytes[offset]? with
  | some byte => .ok byte
  | none => .error offset

/-- The number in the two bytes at an offset. -/
def wordAt (bytes : List UInt8) (offset : Nat) : Except Nat UInt32 := do
  let high ← byteAt bytes offset
  let low ← byteAt bytes (offset + 1)
  .ok (bigEndian16 high low)

/-- The walk over the items of a file by offsets. It ends in an error where it reads a byte that is
not there. -/
def walk (bytes : List UInt8) (offset : Nat) : Except Nat (Option Dimensions) :=
  if offset + 9 < bytes.length then do
    let lead ← byteAt bytes offset
    if lead != 0xFF then walk bytes (offset + 1)
    else
      let marker ← byteAt bytes (offset + 1)
      if isBareMarker marker then walk bytes (offset + 2)
      else
        let length ← wordAt bytes (offset + 2)
        if length.toNat < 2 || bytes.length < offset + 2 + length.toNat then .ok none
        else if isFrameMarker marker then
          let height ← wordAt bytes (offset + 5)
          let width ← wordAt bytes (offset + 7)
          .ok (some ⟨width, height⟩)
        else walk bytes (offset + 2 + length.toNat)
  else .ok none
termination_by bytes.length - offset

end Walk

section Items

/-- A number below 65536 in two bytes, most significant first. -/
def twoBytes (n : Nat) : List UInt8 :=
  [UInt8.ofNat (n / 256), UInt8.ofNat n]

/-- A segment that is no frame header. Its length counts the payload and the length itself. -/
structure Segment where
  marker : UInt8
  payload : List UInt8
  notBare : isBareMarker marker = false
  notFrame : isFrameMarker marker = false
  fits : payload.length + 2 < 65536

/-- The bytes of a segment. -/
def Segment.bytes (segment : Segment) : List UInt8 :=
  0xFF :: segment.marker :: (twoBytes (segment.payload.length + 2) ++ segment.payload)

/-- What the walk passes over in one step. -/
inductive Item where
  | stray (byte : UInt8) (h : byte ≠ 0xFF)
  | bare (marker : UInt8) (h : isBareMarker marker = true)
  | whole (segment : Segment)

/-- The bytes of an item. -/
def Item.bytes : Item → List UInt8
  | .stray byte _ => [byte]
  | .bare marker _ => [0xFF, marker]
  | .whole segment => segment.bytes

/-- Bytes that begin with a frame header of a size. Ten bytes are there, and as many behind the
marker as the header's length says. -/
structure ShowsFrame (bytes : List UInt8) (size : Dimensions) : Prop where
  long : 10 ≤ bytes.length
  lead : byteAt bytes 0 = .ok 0xFF
  marker : ∃ marker, byteAt bytes 1 = .ok marker ∧ isFrameMarker marker = true
  length : ∃ length, wordAt bytes 2 = .ok length ∧ 2 ≤ length.toNat ∧
    length.toNat + 2 ≤ bytes.length
  height : wordAt bytes 5 = .ok size.height
  width : wordAt bytes 7 = .ok size.width

/-- A frame header: the components of the picture follow on its size, which makes its length at
least eight. -/
structure Frame where
  marker : UInt8
  precision : UInt8
  height : UInt16
  width : UInt16
  components : List UInt8
  isFrame : isFrameMarker marker = true
  nonempty : components ≠ []
  fits : components.length + 7 < 65536

/-- The bytes of a frame header. -/
def Frame.bytes (frame : Frame) : List UInt8 :=
  0xFF :: frame.marker :: (twoBytes (frame.components.length + 7) ++
    frame.precision :: (twoBytes frame.height.toNat ++ (twoBytes frame.width.toNat ++
      frame.components)))

/-- The size in a frame header. -/
def Frame.size (frame : Frame) : Dimensions :=
  ⟨frame.width.toUInt32, frame.height.toUInt32⟩

end Items

variable {bytes rest tail : List UInt8} {offset n : Nat} {size : Dimensions}
  {marker high low : UInt8}

section Words

theorem toNat_bigEndian16 (high low : UInt8) :
    (bigEndian16 high low).toNat = 256 * high.toNat + low.toNat := by
  have hHigh : high.toNat < 256 := high.toNat_lt
  have hLow : low.toNat < 2 ^ 8 := low.toNat_lt
  have hShift : (high.toUInt32 <<< 8).toNat = high.toNat <<< 8 := by
    rw [UInt32.toNat_shiftLeft, UInt8.toNat_toUInt32]
    simp only [Nat.shiftLeft_eq]
    exact Nat.mod_eq_of_lt (by change high.toNat * 256 < 4294967296; omega)
  rw [bigEndian16, UInt32.toNat_or, hShift, UInt8.toNat_toUInt32,
    ← Nat.shiftLeft_add_eq_or_of_lt hLow, Nat.shiftLeft_eq]
  omega

theorem bigEndian16_ofNat (h : n < 65536) :
    bigEndian16 (UInt8.ofNat (n / 256)) (UInt8.ofNat n) = UInt32.ofNat n := by
  rw [← UInt32.toNat_inj, toNat_bigEndian16, UInt8.toNat_ofNat', UInt8.toNat_ofNat',
    UInt32.toNat_ofNat']
  omega

theorem isBareMarker_of_isFrameMarker (h : isFrameMarker marker = true) :
    isBareMarker marker = false := by
  by_contra hBare
  rw [Bool.not_eq_false, isBareMarker, Bool.or_eq_true, beq_iff_eq, beq_iff_eq] at hBare
  rcases hBare with rfl | rfl <;> cases h

theorem byteAt_of_drop {byte : UInt8} (h : bytes.drop offset = byte :: rest) :
    byteAt bytes offset = .ok byte := by
  have hByte : bytes[offset]? = some byte := by
    rw [← Nat.add_zero offset, ← List.getElem?_drop, h]
    rfl
  rw [byteAt, hByte]

theorem wordAt_of_drop (h : bytes.drop offset = high :: low :: rest) :
    wordAt bytes offset = .ok (bigEndian16 high low) := by
  have hLow : byteAt bytes (offset + 1) = .ok low := by
    apply byteAt_of_drop
    rw [← List.drop_drop, h]
    rfl
  rw [wordAt, byteAt_of_drop h, hLow]
  rfl

end Words

section Steps

/-- The walk needs ten bytes for a step. -/
theorem frameDimensions?_short (h : bytes.length < 10) : frameDimensions? bytes = none := by
  unfold frameDimensions?
  split
  · simp at h
    omega
  · rfl

/-- Ten bytes one by one. -/
theorem exists_ten (h : 10 ≤ bytes.length) : ∃ b0 b1 b2 b3 b4 b5 b6 b7 b8 b9 rest,
    bytes = b0 :: b1 :: b2 :: b3 :: b4 :: b5 :: b6 :: b7 :: b8 :: b9 :: rest := by
  match bytes, h with
  | b0 :: b1 :: b2 :: b3 :: b4 :: b5 :: b6 :: b7 :: b8 :: b9 :: rest, _ =>
    exact ⟨b0, b1, b2, b3, b4, b5, b6, b7, b8, b9, rest, rfl⟩

theorem frameDimensions?_stray {byte : UInt8} (h : byte ≠ 0xFF) (rest : List UInt8) :
    frameDimensions? (byte :: rest) = frameDimensions? rest := by
  by_cases hLong : 10 ≤ (byte :: rest).length
  · obtain ⟨_, _, _, _, _, _, _, _, _, _, _, hTen⟩ := exists_ten hLong
    obtain ⟨rfl, rfl⟩ := List.cons.inj hTen
    rw [frameDimensions?]
    simp [h]
  · rw [List.length_cons] at hLong
    rw [frameDimensions?_short (by simp; omega), frameDimensions?_short (by omega)]

theorem frameDimensions?_bare (h : isBareMarker marker = true) (rest : List UInt8) :
    frameDimensions? (0xFF :: marker :: rest) = frameDimensions? rest := by
  by_cases hLong : 10 ≤ (0xFF :: marker :: rest).length
  · obtain ⟨_, _, _, _, _, _, _, _, _, _, _, hTen⟩ := exists_ten hLong
    simp only [List.cons.injEq] at hTen
    obtain ⟨-, -, rfl⟩ := hTen
    rw [frameDimensions?]
    simp [h]
  · simp only [List.length_cons] at hLong
    rw [frameDimensions?_short (by simp; omega), frameDimensions?_short (by omega)]

/-- A segment is passed over by its length, if it fits. -/
theorem frameDimensions?_marked (hBare : isBareMarker marker = false)
    (hFrame : isFrameMarker marker = false) (hLong : 6 ≤ tail.length) :
    frameDimensions? (0xFF :: marker :: high :: low :: tail) =
      if (bigEndian16 high low).toNat < 2 ∨ tail.length + 2 < (bigEndian16 high low).toNat then none
      else frameDimensions? ((high :: low :: tail).drop (bigEndian16 high low).toNat) := by
  have hTotal : 10 ≤ (0xFF :: marker :: high :: low :: tail).length := by
    simp only [List.length_cons]
    omega
  obtain ⟨_, _, _, _, _, _, _, _, _, _, _, hTen⟩ := exists_ten hTotal
  simp only [List.cons.injEq] at hTen
  obtain ⟨-, -, -, -, rfl⟩ := hTen
  rw [frameDimensions?]
  simp [hBare, hFrame]

theorem frameDimensions?_segment (segment : Segment) (rest : List UInt8) :
    frameDimensions? (segment.bytes ++ rest) = frameDimensions? rest := by
  have hLength : (bigEndian16 (UInt8.ofNat ((segment.payload.length + 2) / 256))
      (UInt8.ofNat (segment.payload.length + 2))).toNat = segment.payload.length + 2 := by
    rw [bigEndian16_ofNat segment.fits]
    exact UInt32.toNat_ofNat_of_lt' (Nat.lt_trans segment.fits (by decide))
  have hBytes : segment.bytes ++ rest = 0xFF :: segment.marker ::
      UInt8.ofNat ((segment.payload.length + 2) / 256) ::
        UInt8.ofNat (segment.payload.length + 2) :: (segment.payload ++ rest) := by
    simp [Segment.bytes, twoBytes]
  by_cases hLong : 6 ≤ (segment.payload ++ rest).length
  · rw [hBytes, frameDimensions?_marked segment.notBare segment.notFrame hLong, hLength, if_neg]
    · simp
    · simp
  · rw [List.length_append] at hLong
    rw [hBytes, frameDimensions?_short (by simp; omega), frameDimensions?_short (by omega)]

/-- Each item is passed over, whatever follows on it. -/
theorem frameDimensions?_item (item : Item) (rest : List UInt8) :
    frameDimensions? (item.bytes ++ rest) = frameDimensions? rest := by
  cases item with
  | stray byte h => exact frameDimensions?_stray h rest
  | bare marker h => exact frameDimensions?_bare h rest
  | whole segment => exact frameDimensions?_segment segment rest

theorem frameDimensions?_items (items : List Item) (rest : List UInt8) :
    frameDimensions? (items.flatMap Item.bytes ++ rest) = frameDimensions? rest := by
  induction items with
  | nil => rfl
  | cons item items ih =>
      rw [List.flatMap_cons, List.append_assoc, frameDimensions?_item, ih]

theorem frameDimensions?_segments (segments : List Segment) (rest : List UInt8) :
    frameDimensions? (segments.flatMap Segment.bytes ++ rest) = frameDimensions? rest := by
  rw [← frameDimensions?_items (segments.map .whole) rest, List.flatMap_map]
  rfl

end Steps

section Frames

/-- What the walk does at a frame header. -/
theorem frameDimensions?_frame {high low precision h1 h0 w1 w0 last : UInt8}
    (hFrame : isFrameMarker marker = true) :
    frameDimensions? (0xFF :: marker :: high :: low :: precision :: h1 :: h0 :: w1 :: w0 :: last ::
      rest) =
      if (bigEndian16 high low).toNat < 2 ∨ rest.length + 8 < (bigEndian16 high low).toNat then none
      else some ⟨bigEndian16 w1 w0, bigEndian16 h1 h0⟩ := by
  rw [frameDimensions?]
  simp [isBareMarker_of_isFrameMarker hFrame, hFrame]

theorem ShowsFrame.frameDimensions?_eq (h : ShowsFrame bytes size) :
    frameDimensions? bytes = some size := by
  obtain ⟨marker, hMarker, hFrame⟩ := h.marker
  obtain ⟨length, hLength, hTwo, hFits⟩ := h.length
  have hLead := h.lead
  have hHeight := h.height
  have hWidth := h.width
  obtain ⟨lead, marker, high, low, precision, h1, h0, w1, w0, last, rest, rfl⟩ := exists_ten h.long
  rw [wordAt_of_drop rfl] at hLength hHeight hWidth
  cases hLead
  cases hMarker
  cases hLength
  rw [frameDimensions?_frame hFrame, if_neg, Except.ok.inj hHeight, Except.ok.inj hWidth]
  simp only [List.length_cons] at hFits
  omega

theorem showsFrame_frame (frame : Frame) (rest : List UInt8) :
    ShowsFrame (frame.bytes ++ rest) frame.size := by
  obtain ⟨last, more, hComponents⟩ := List.exists_cons_of_ne_nil frame.nonempty
  have hLength : (frame.bytes ++ rest).length = 9 + frame.components.length + rest.length := by
    simp [Frame.bytes, twoBytes]
    omega
  refine ⟨?_, rfl, ⟨frame.marker, rfl, frame.isFrame⟩, ⟨_, wordAt_of_drop rfl, ?_⟩, ?_, ?_⟩
  · rw [hLength, hComponents, List.length_cons]
    omega
  · rw [bigEndian16_ofNat frame.fits,
      UInt32.toNat_ofNat_of_lt' (Nat.lt_trans frame.fits (by decide)), hLength]
    omega
  · rw [wordAt_of_drop rfl, bigEndian16_ofNat frame.height.toNat_lt]
    simp [Frame.size]
  · rw [wordAt_of_drop rfl, bigEndian16_ofNat frame.width.toNat_lt]
    simp [Frame.size]

/-- Bytes that follow on a marker make up a segment and a rest, if its length fits. -/
theorem exists_segment (hBare : isBareMarker marker = false) (hFrame : isFrameMarker marker = false)
    (hTwo : 2 ≤ (bigEndian16 high low).toNat)
    (hFits : (bigEndian16 high low).toNat ≤ (high :: low :: tail).length) :
    ∃ segment : Segment, 0xFF :: marker :: high :: low :: tail =
      segment.bytes ++ (high :: low :: tail).drop (bigEndian16 high low).toNat := by
  obtain ⟨n, hLength⟩ := Nat.exists_eq_add_of_le' hTwo
  have hHigh : high.toNat < 256 := high.toNat_lt
  have hLow : low.toNat < 256 := low.toNat_lt
  have hSum := toNat_bigEndian16 high low
  rw [hLength] at hFits hSum
  -- Two of the bytes that the length counts are the length itself.
  obtain ⟨payload, hPayload, hRest⟩ : ∃ payload, payload.length = n ∧
      payload ++ tail.drop n = tail := by
    refine ⟨tail.take n, ?_, List.take_append_drop n tail⟩
    rw [List.length_take]
    simp only [List.length_cons] at hFits
    omega
  have hBytes : twoBytes (n + 2) = [high, low] := by
    have hDiv : (n + 2) / 256 = high.toNat := by omega
    have hMod : UInt8.ofNat (n + 2) = low := by
      rw [← UInt8.toNat_inj, UInt8.toNat_ofNat']
      omega
    rw [twoBytes, hDiv, hMod, UInt8.ofNat_toNat]
  refine ⟨⟨marker, payload, hBare, hFrame, by omega⟩, ?_⟩
  change _ = 0xFF :: marker :: (twoBytes (payload.length + 2) ++ payload) ++ _
  rw [hPayload, hBytes, hLength]
  simp [hRest]

/-- A size comes from a frame header behind whole items. -/
theorem exists_items_of_frameDimensions? (h : frameDimensions? bytes = some size) :
    ∃ (items : List Item) (rest : List UInt8),
      bytes = items.flatMap Item.bytes ++ rest ∧ ShowsFrame rest size := by
  -- A step that goes on puts its item in front of those that the walk passes over from there.
  fun_induction frameDimensions? bytes with
  | case1 lead marker high low precision h1 h0 w1 w0 last rest body hLead ih =>
      obtain ⟨items, frame, hBytes, hShows⟩ := ih h
      refine ⟨.stray lead (by simpa using hLead) :: items, frame, ?_, hShows⟩
      rw [List.flatMap_cons, List.append_assoc, ← hBytes]
      rfl
  | case2 lead marker high low precision h1 h0 w1 w0 last rest body hLead hBare ih =>
      obtain ⟨items, frame, hBytes, hShows⟩ := ih h
      obtain rfl : lead = 0xFF := by simpa using hLead
      refine ⟨.bare marker hBare :: items, frame, ?_, hShows⟩
      rw [List.flatMap_cons, List.append_assoc, ← hBytes]
      rfl
  | case3 => cases h
  | case4 lead marker high low precision h1 h0 w1 w0 last rest body hLead hBare length hFits hFrame =>
      obtain rfl : lead = 0xFF := by simpa using hLead
      obtain rfl := Option.some.inj h
      have hBounds : 2 ≤ length ∧ length ≤ body.length := by
        simpa only [Bool.or_eq_true, decide_eq_true_eq, not_or, Nat.not_lt] using hFits
      refine ⟨[], _, rfl, ?_, rfl, ⟨marker, rfl, hFrame⟩, ⟨_, wordAt_of_drop rfl, hBounds.1, ?_⟩,
        wordAt_of_drop rfl, wordAt_of_drop rfl⟩
      · simp
      · exact Nat.add_le_add_right hBounds.2 2
  | case5 lead marker high low precision h1 h0 w1 w0 last rest body hLead hBare length hFits hFrame ih =>
      obtain ⟨items, frame, hBytes, hShows⟩ := ih h
      obtain rfl : lead = 0xFF := by simpa using hLead
      have hBounds : 2 ≤ length ∧ length ≤ body.length := by
        simpa only [Bool.or_eq_true, decide_eq_true_eq, not_or, Nat.not_lt] using hFits
      obtain ⟨segment, hSegment⟩ := exists_segment (by simpa using hBare) (by simpa using hFrame)
        hBounds.1 hBounds.2
      refine ⟨.whole segment :: items, frame, ?_, hShows⟩
      rw [List.flatMap_cons, List.append_assoc, ← hBytes]
      exact hSegment
  | case6 => cases h

end Frames

section Reads

/-- The walk by offsets reads only bytes that are there, and finds what the walk over the rest
finds. -/
theorem walk_eq (bytes : List UInt8) (offset : Nat) :
    walk bytes offset = .ok (frameDimensions? (bytes.drop offset)) := by
  fun_induction walk bytes offset with
  | case1 offset hLong ihStray ihBare ihSegment =>
      -- Whatever a step reads is one of the ten bytes that have to be there for it.
      have hRest : 10 ≤ (bytes.drop offset).length := by
        rw [List.length_drop]
        omega
      obtain ⟨lead, marker, high, low, precision, h1, h0, w1, w0, last, rest, hTen⟩ :=
        exists_ten hRest
      have hDrop (n : Nat) : bytes.drop (offset + n) = (lead :: marker :: high :: low ::
          precision :: h1 :: h0 :: w1 :: w0 :: last :: rest).drop n := by
        rw [← hTen, List.drop_drop]
      have hBody (n : Nat) : bytes.drop (offset + 2 + n) = (high :: low :: precision :: h1 :: h0 ::
          w1 :: w0 :: last :: rest).drop n := by
        rw [← List.drop_drop, hDrop]
        rfl
      have hFits (n : Nat) : bytes.length < offset + 2 + n ↔ (high :: low :: precision :: h1 ::
          h0 :: w1 :: w0 :: last :: rest).length < n := by
        have hLength := congrArg List.length hTen
        simp only [List.length_drop, List.length_cons] at hLength ⊢
        omega
      rw [byteAt_of_drop hTen, byteAt_of_drop (hDrop 1), wordAt_of_drop (hDrop 2),
        wordAt_of_drop (hDrop 5), wordAt_of_drop (hDrop 7), hTen, frameDimensions?]
      simp only [bind, Except.bind, ihStray, ihBare, ihSegment, hDrop, hBody, hFits]
      split
      · rfl
      · split
        · rfl
        · split
          · rfl
          · split <;> rfl
  | case2 offset hShort =>
      rw [frameDimensions?_short]
      rw [List.length_drop]
      omega

end Reads

/-- The walk reads no byte that is not there, and finds a size exactly if a frame header follows on
items. So it finds the size of a file whose frame header follows on segments, whatever they hold. -/
theorem jpegDimensions?_walks (bytes : List UInt8) :
    walk bytes 2 = .ok (jpegDimensions? bytes) ∧
    (∀ size, jpegDimensions? bytes = some size ↔ ∃ (items : List Item) (rest : List UInt8),
      bytes.drop 2 = items.flatMap Item.bytes ++ rest ∧ ShowsFrame rest size) ∧
    ∀ (segments : List Segment) (frame : Frame) (rest : List UInt8),
      jpegDimensions? (jpegStart ++ segments.flatMap Segment.bytes ++ frame.bytes ++ rest) =
        some frame.size := by
  refine ⟨walk_eq bytes 2, fun size => ⟨exists_items_of_frameDimensions?, ?_⟩, ?_⟩
  · rintro ⟨items, rest, hBytes, hShows⟩
    rw [jpegDimensions?, hBytes, frameDimensions?_items, hShows.frameDimensions?_eq]
  · intro segments frame rest
    change frameDimensions? (segments.flatMap Segment.bytes ++ frame.bytes ++ rest) = _
    rw [List.append_assoc, frameDimensions?_segments,
      (showsFrame_frame frame rest).frameDimensions?_eq]

end DatasetAudit.Header
