import DatasetAudit.Proofs.Check.Integrity
import DatasetAudit.Proofs.Image.Segments
import DatasetAudit.Proofs.Index.Build

/-! Bytes `FF` in front of a marker. The walk takes the first of them for a lead and the next for a
marker, so it takes what follows for a length, and that length is greater than most files. -/

namespace DatasetAudit

namespace Header

/-- Bytes `FF` that fill up the room in front of a marker. -/
def fill (count : Nat) : List UInt8 :=
  List.replicate count 0xFF

/-- A file up to its frame header, with so many bytes to fill up in front of each marker. -/
def filledFile (segments : List (Nat × Segment)) (count : Nat) (frame : Frame) : List UInt8 :=
  jpegStart ++ segments.flatMap (fun part => fill part.1 ++ part.2.bytes) ++ fill count ++
    frame.bytes

/-- There is nothing that fills up. -/
def Unfilled (segments : List (Nat × Segment)) (count : Nat) : Prop :=
  count = 0 ∧ ∀ part ∈ segments, part.1 = 0

instance (segments : List (Nat × Segment)) (count : Nat) : Decidable (Unfilled segments count) :=
  inferInstanceAs (Decidable (_ ∧ _))

variable {marker : UInt8} {tail rest : List UInt8} {segments : List (Nat × Segment)} {count : Nat}
  {frame : Frame}

/-- Behind the two bytes that the walk takes for a marker there is `FF` or the marker itself. -/
theorem exists_high (hMarker : 0xC0 ≤ marker) (count : Nat) (tail : List UInt8) :
    ∃ high more, fill count ++ marker :: tail = high :: more ∧ 0xC0 ≤ high := by
  cases count with
  | zero => exact ⟨marker, tail, rfl, hMarker⟩
  | succ count => exact ⟨0xFF, fill count ++ marker :: tail, rfl, by decide⟩

theorem fill_append_cons (count : Nat) (tail : List UInt8) :
    fill count ++ 0xFF :: tail = 0xFF :: (fill count ++ tail) := by
  rw [List.append_cons, fill, ← List.replicate_succ', List.replicate_succ, List.cons_append]

/-- The walk gives up at a marker with something in front of it. -/
theorem frameDimensions?_fill (hMarker : 0xC0 ≤ marker) (count : Nat)
    (hShort : (fill (count + 1) ++ 0xFF :: marker :: tail).length < 0xC000) :
    frameDimensions? (fill (count + 1) ++ 0xFF :: marker :: tail) = none := by
  have hBytes : fill (count + 1) ++ 0xFF :: marker :: tail =
      0xFF :: 0xFF :: (fill count ++ marker :: tail) := by
    rw [fill_append_cons]
    rfl
  -- The second `FF` is taken for the marker of a segment, and `high` for a part of its length.
  obtain ⟨high, more, hHigh, hLarge⟩ := exists_high hMarker count tail
  rw [hBytes, hHigh] at hShort ⊢
  rcases more with _ | ⟨low, more⟩
  · exact frameDimensions?_short (by simp)
  · by_cases hLong : 6 ≤ more.length
    · have hLength : 0xC000 ≤ (bigEndian16 high low).toNat := by
        have hLarge : 0xC0 ≤ high.toNat := hLarge
        rw [toNat_bigEndian16]
        omega
      simp only [List.length_cons] at hShort
      rw [frameDimensions?_marked (by decide) (by decide) hLong, if_pos (by omega)]
    · exact frameDimensions?_short (by simp; omega)

theorem le_of_isFrameMarker (h : isFrameMarker marker = true) : 0xC0 ≤ marker := by
  have hEach {markers : List UInt8} (hMem : markers.contains marker = true)
      (hAll : (markers.all fun other => 0xC0 ≤ other) = true) : 0xC0 ≤ marker :=
    of_decide_eq_true (List.all_eq_true.mp hAll marker (List.contains_iff_mem.mp hMem))
  exact hEach h (by decide)

/-- In a short file the walk gets to the frame header exactly if nothing is filled up. -/
theorem frameDimensions?_filled (hMarkers : ∀ part ∈ segments, 0xC0 ≤ part.2.marker)
    (hShort : (segments.flatMap (fun part => fill part.1 ++ part.2.bytes) ++
      (fill count ++ (frame.bytes ++ rest))).length < 0xC000) :
    frameDimensions? (segments.flatMap (fun part => fill part.1 ++ part.2.bytes) ++
      (fill count ++ (frame.bytes ++ rest))) =
        if Unfilled segments count then some frame.size else none := by
  induction segments with
  | nil =>
      cases count with
      | zero => simpa [Unfilled, fill] using (showsFrame_frame frame rest).frameDimensions?_eq
      | succ count =>
          rw [if_neg fun hUnfilled => absurd hUnfilled.1 (Nat.succ_ne_zero count)]
          exact frameDimensions?_fill (le_of_isFrameMarker frame.isFrame) count hShort
  | cons part segments ih =>
      obtain ⟨filled, segment⟩ := part
      rw [List.forall_mem_cons] at hMarkers
      rw [List.flatMap_cons, List.append_assoc, List.append_assoc] at hShort ⊢
      cases filled with
      | zero =>
          have hSame : Unfilled ((0, segment) :: segments) count ↔ Unfilled segments count := by
            simp [Unfilled]
          simp only [hSame]
          refine (frameDimensions?_segment segment _).trans (ih hMarkers.2 ?_)
          refine Nat.lt_of_le_of_lt ?_ hShort
          simp only [List.length_append]
          omega
      | succ filled =>
          rw [if_neg fun hUnfilled =>
            absurd (hUnfilled.2 _ List.mem_cons_self) (Nat.succ_ne_zero filled)]
          exact frameDimensions?_fill hMarkers.1 filled hShort

end Header

/-- A file that begins like a JPEG file is taken for one. -/
theorem Decoder.probeHeader_start (bytes : List UInt8) :
    probeHeader (0xFF :: 0xD8 :: bytes) =
      match Header.frameDimensions? bytes with
      | some size => .dimensions size
      | none => .failed "jpeg size parse failed" :=
  rfl

namespace IndexEntry

/-- Reading headers finds an image broken if its header does not show a size. -/
theorem imageError_withBytes_header (entry : IndexEntry) (perceptualHashing : Bool)
    (bytes : List UInt8) : (entry.withBytes .header perceptualHashing bytes).imageError =
      match Decoder.probeHeader bytes with
      | .failed reason => some reason
      | _ => entry.imageError := by
  have hHash (entry : IndexEntry) : entry.withHash (Decoder.header.perceptualHash bytes) = entry :=
    rfl
  change (if _ then _ else _ : IndexEntry).imageError = _
  rw [hHash, ite_self]
  change (IndexEntry.withProbe _ (Decoder.probeHeader bytes)).imageError = _
  cases Decoder.probeHeader bytes <;> rfl

end IndexEntry

/-- In a short file the probe finds the size exactly if nothing is filled up. -/
theorem Decoder.probeHeader_filled {segments : List (Nat × Header.Segment)} {count : Nat}
    {frame : Header.Frame} {rest : List UInt8}
    (hMarkers : ∀ part ∈ segments, 0xC0 ≤ part.2.marker)
    (hShort : (Header.filledFile segments count frame ++ rest).length < 0xC000) :
    probeHeader (Header.filledFile segments count frame ++ rest) =
      if Header.Unfilled segments count then .dimensions frame.size
      else .failed "jpeg size parse failed" := by
  have hBytes : Header.filledFile segments count frame ++ rest = 0xFF :: 0xD8 ::
      (segments.flatMap (fun part => Header.fill part.1 ++ part.2.bytes) ++
        (Header.fill count ++ (frame.bytes ++ rest))) := by
    simp [Header.filledFile, Header.jpegStart]
  rw [hBytes] at hShort ⊢
  have hSize :=
    Header.frameDimensions?_filled hMarkers (Nat.lt_of_succ_lt (Nat.lt_of_succ_lt hShort))
  rw [probeHeader_start, hSize]
  by_cases hUnfilled : Header.Unfilled segments count
  · rw [if_pos hUnfilled, if_pos hUnfilled]
  · rw [if_neg hUnfilled, if_neg hUnfilled]

/-- What fills up makes a file of less than 48 KiB unreadable, wherever it stands, and nothing else
does: without it the probe finds the size in the frame header, and with it the image is reported as
broken. -/
theorem probeHeader_filledFile (segments : List (Nat × Header.Segment)) (count : Nat)
    (frame : Header.Frame) (rest : List UInt8)
    (hMarkers : ∀ part ∈ segments, 0xC0 ≤ part.2.marker)
    (hShort : (Header.filledFile segments count frame ++ rest).length < 0xC000) :
    Decoder.probeHeader (Header.filledFile segments count frame ++ rest) =
        (if Header.Unfilled segments count then .dimensions frame.size
        else .failed "jpeg size parse failed") ∧
    ∀ (files : FileView) (record : SourceRecord) (stat : FileStat) (hashing : Bool)
      (digest : String) (classCount : Nat), files.stat record.imagePath.text = .ok stat →
      files.read record.imagePath.text =
        .ok (Header.filledFile segments count frame ++ rest) →
      ((∃ f ∈ Integrity.entryFindings
          (Index.entryOf files .header hashing .empty digest record) classCount,
        f.id = .integrityCorruptImage) ↔ ¬ Header.Unfilled segments count) := by
  have hProbe := Decoder.probeHeader_filled hMarkers hShort
  refine ⟨hProbe, ?_⟩
  intro files record stat hashing digest classCount hStat hRead
  have hEntry : Index.entryOf files .header hashing .empty digest record =
      (record.statedEntry stat).withBytes .header hashing
        (Header.filledFile segments count frame ++ rest) := by
    simp only [Index.entryOf, hStat, IndexCache.lookup?_empty, hRead]
    rfl
  rw [Integrity.exists_corruptImage_iff, hEntry, IndexEntry.imageError_withBytes_header, hProbe]
  by_cases hUnfilled : Header.Unfilled segments count
  · simp [hUnfilled, SourceRecord.statedEntry, SourceRecord.blankEntry]
  · simp [hUnfilled]

namespace Header

/-- The segment that JFIF files begin with. -/
def greeting : Segment where
  marker := 0xE0
  payload := [0x4A, 0x46, 0x49, 0x46, 0x00, 0x01, 0x01, 0x00, 0x00, 0x01, 0x00, 0x01, 0x00, 0x00]
  notBare := rfl
  notFrame := rfl
  fits := by decide

/-- The frame header of a picture of 32 by 16 pixels in three components. -/
def smallFrame : Frame where
  marker := 0xC0
  precision := 8
  height := 16
  width := 32
  components := [3, 0x01, 0x11, 0x00, 0x02, 0x11, 0x01, 0x03, 0x11, 0x01]
  isFrame := rfl
  nonempty := nofun
  fits := by decide

end Header

open Header (filledFile greeting smallFrame)

/-- Files that all hold the same bytes. -/
def FileView.ofBytes (bytes : List UInt8) : FileView where
  stat _ := .ok ⟨UInt64.ofNat bytes.length, 1⟩
  read _ := .ok bytes

/-- A record of an image without a label file. -/
def SourceRecord.unlabelled : SourceRecord where
  split := .train
  image := "a.jpg"
  imagePath := .ofString "/d/a.jpg"
  label := none
  labels := .missing

theorem padded_probe : (∀ part ∈ [(0, greeting)], 0xC0 ≤ part.2.marker) ∧
    (filledFile [(0, greeting)] 1 smallFrame ++ [0xFF, 0xD9]).length < 0xC000 ∧
    Decoder.probeHeader (filledFile [(0, greeting)] 0 smallFrame ++ [0xFF, 0xD9]) =
      .dimensions ⟨32, 16⟩ ∧
    Decoder.probeHeader (filledFile [(0, greeting)] 1 smallFrame ++ [0xFF, 0xD9]) =
      .failed "jpeg size parse failed" ∧
    ∃ f ∈ Integrity.entryFindings (Index.entryOf
      (.ofBytes (filledFile [(0, greeting)] 1 smallFrame ++ [0xFF, 0xD9])) .header false .empty ""
        .unlabelled) 1, f.id = .integrityCorruptImage := by
  have hMarkers : ∀ part ∈ [(0, greeting)], 0xC0 ≤ part.2.marker := by decide
  have hShort : (filledFile [(0, greeting)] 1 smallFrame ++ [0xFF, 0xD9]).length < 0xC000 := by
    decide
  obtain ⟨hProbe, hFindings⟩ := probeHeader_filledFile _ 1 smallFrame _ hMarkers hShort
  exact ⟨hMarkers, hShort,
    (probeHeader_filledFile _ 0 smallFrame _ hMarkers (Nat.lt_of_succ_lt hShort)).1, hProbe,
    (hFindings _ _ _ _ _ _ rfl rfl).mpr (by decide)⟩

/-- One byte in front of the frame header hides the size. -/
theorem padded_unreadable :
    Header.jpegDimensions? (filledFile [(0, greeting)] 0 smallFrame) = some smallFrame.size ∧
      Header.jpegDimensions? (filledFile [(0, greeting)] 1 smallFrame) ≠ some smallFrame.size := by
  decide +kernel

end DatasetAudit
