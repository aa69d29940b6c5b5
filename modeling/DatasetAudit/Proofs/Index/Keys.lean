import DatasetAudit.Proofs.Cluster.Arrival
import DatasetAudit.Proofs.Index.Basis

/-! What the digests of settings and of snapshots are taken over. The text of the settings determines
them, whatever the root is called, and the text of a snapshot determines the digest of its settings
and each file's key, size and time, so that only a collision of digests can mix them up. -/

namespace DatasetAudit

namespace CacheBasis

/-- Settings as an index has them: they name the program's version and some of the checks, these in
the order in which all checks are listed. -/
structure Formed (basis : CacheBasis) : Prop where
  version : basis.toolVersion = DatasetAudit.toolVersion
  checks : ∃ kinds : List CheckKind, kinds.Sublist CheckKind.all ∧
    basis.enabledChecks = kinds.map CheckKind.name

variable {basis other : CacheBasis}

theorem formed_basisOf (source : Source) (config : Config) (options : IndexOptions)
    (decoder : Decoder) : (Index.basisOf source config options decoder).Formed where
  version := rfl
  checks := ⟨config.enabledChecks, List.filter_sublist, rfl⟩

theorem Formed.exists_kind (h : basis.Formed) {name : String} (hName : name ∈ basis.enabledChecks) :
    ∃ kind : CheckKind, kind.name = name := by
  obtain ⟨kinds, -, hKinds⟩ := h.checks
  rw [hKinds] at hName
  obtain ⟨kind, -, hKind⟩ := List.mem_map.mp hName
  exact ⟨kind, hKind⟩

theorem Formed.plain (h : basis.Formed) : basis.Plain where
  version := by
    rw [h.version]
    decide
  checks := by
    intro name hName
    obtain ⟨kind, rfl⟩ := h.exists_kind hName
    cases kind <;> decide

theorem Formed.names (h : basis.Formed) :
    ∀ name ∈ basis.enabledChecks.map String.toList, ',' ∉ name ∧ name ≠ [] := by
  intro text hText
  obtain ⟨name, hName, rfl⟩ := List.mem_map.mp hText
  obtain ⟨kind, rfl⟩ := h.exists_kind hName
  cases kind <;> decide

/-- The list of checks is read off its line, as no name of a check holds a comma. -/
theorem enabledChecks_eq (hBasis : basis.Formed) (hOther : other.Formed)
    (h : ",".intercalate basis.enabledChecks = ",".intercalate other.enabledChecks) :
    basis.enabledChecks = other.enabledChecks := by
  have hLists := congrArg String.toList h
  rw [String.toList_intercalate, String.toList_intercalate] at hLists
  have hNames := Text.intercalate_injective_of_ne_nil hBasis.names hOther.names hLists
  exact (List.map_inj_right fun _ _ hEq => String.toList_inj.mp hEq).mp hNames

theorem text_injective (hBasis : basis.Formed) (hOther : other.Formed)
    (h : basis.text = other.text) : basis = other := by
  obtain ⟨hRoot, hLines⟩ := lines_injective hBasis.plain hOther.plain h
  have hHashing := perceptualHashing_eq hLines
  simp only [lines, List.cons.injEq, String.append_right_inj, and_true] at hLines
  obtain ⟨hVersion, hChecks, -, hThreshold, hLimit⟩ := hLines
  have hThreshold := UInt32.toNat_inj.mp (Text.toString_injective hThreshold)
  cases basis
  cases other
  congr
  · exact enabledChecks_eq hBasis hOther hChecks
  · exact Text.toString_injective hLimit

/-- A digest is written in hexadecimal digits, which are no line breaks. -/
theorem notMem_digest (basis : CacheBasis) : '\n' ∉ basis.digest.toList := by
  have hDigit : ∀ n < 16, '\n' ≠ Hex.digit n := by decide
  intro hMem
  rw [digest, Sha256.hexDigest, Hex.ofBytes, String.toList_ofList, List.mem_flatMap] at hMem
  obtain ⟨byte, -, hByte⟩ := hMem
  have hLow : byte.toNat % 16 < 16 := Nat.mod_lt _ (by decide)
  have hHigh : byte.toNat / 16 < 16 := Nat.div_lt_of_lt_mul byte.toNat_lt
  simp only [Hex.ofByte, List.mem_cons, List.not_mem_nil, or_false] at hByte
  rcases hByte with hByte | hByte
  · exact hDigit _ hHigh hByte
  · exact hDigit _ hLow hByte

end CacheBasis

section Snapshots

/-- What a snapshot is to tell about an entry: its key, and the size and the time of its file. -/
def IndexEntry.snapshot (entry : IndexEntry) : ImageKey × FileStat :=
  (entry.key, ⟨entry.sizeBytes, entry.mtimeNs⟩)

variable {entry other : IndexEntry}

theorem IndexEntry.statLine_toList (entry : IndexEntry) : entry.statLine.toList =
    (entry.identity.toList ++ '|' :: (toString entry.sizeBytes.toNat).toList) ++
      '|' :: (toString entry.mtimeNs.toInt).toList := by
  have hText : entry.statLine = entry.identity ++ "|" ++ toString entry.sizeBytes.toNat ++ "|" ++
      toString entry.mtimeNs.toInt := rfl
  simp [hText]

/-- A line is read from its end: the path may hold the sign that stands between size and time, but
these are numbers. -/
theorem IndexEntry.snapshot_eq_of_statLine (h : entry.statLine = other.statLine) :
    entry.snapshot = other.snapshot := by
  have hTime (n : Int) := Text.notMem_intText (c := '|') rfl (by decide) n
  have hSize (n : Nat) := Text.notMem_toString (c := '|') rfl n
  have hLists := congrArg String.toList h
  rw [statLine_toList, statLine_toList] at hLists
  obtain ⟨hFront, hTimes⟩ := Text.split_last (hTime _) (hTime _) hLists
  obtain ⟨hIdentities, hSizes⟩ := Text.split_last (hSize _) (hSize _) hFront
  have hKey : entry.key = other.key := ImageKey.text_injective (String.toList_inj.mp hIdentities)
  have hSizes := UInt64.toNat_inj.mp (Text.toString_injective (String.toList_inj.mp hSizes))
  have hTimes := Int64.toInt_inj.mp (Text.intText_injective (String.toList_inj.mp hTimes))
  rw [snapshot, snapshot, hKey, hSizes, hTimes]

theorem IndexEntry.statLine_eq_iff :
    entry.statLine = other.statLine ↔ entry.snapshot = other.snapshot := by
  refine ⟨IndexEntry.snapshot_eq_of_statLine, fun h => ?_⟩
  obtain ⟨hKey, hStat⟩ := Prod.mk.inj h
  obtain ⟨hSize, hTime⟩ := (FileStat.mk.injEq ..).mp hStat
  rw [statLine, statLine, identity, identity, hKey, hSize, hTime]

theorem map_statLine_eq_iff {entries others : List IndexEntry} :
    entries.map IndexEntry.statLine = others.map IndexEntry.statLine ↔
      entries.map IndexEntry.snapshot = others.map IndexEntry.snapshot := by
  simp only [← List.forall₂_eq_eq_eq, List.forall₂_map_left_iff, List.forall₂_map_right_iff,
    IndexEntry.statLine_eq_iff]

theorem IndexEntry.notMem_statLine (h : '\n' ∉ entry.image.toList) :
    '\n' ∉ entry.statLine.toList := by
  have hName : '\n' ∉ entry.split.name.toList := by
    cases entry.split <;> decide
  have hIdentity : '\n' ∉ entry.identity.toList := by
    rw [identity, ImageKey.text]
    simp [key, hName, h]
  have hSize : '\n' ∉ (toString entry.sizeBytes.toNat).toList := Text.notMem_toString rfl _
  have hTime : '\n' ∉ (toString entry.mtimeNs.toInt).toList :=
    Text.notMem_intText rfl (by decide) _
  rw [statLine_toList]
  simp only [List.mem_append, List.mem_cons, hIdentity, hSize, hTime, or_false, false_or, not_or]
  exact ⟨by decide, by decide⟩

/-- No path of an image holds a line break. -/
def SingleLined (entries : List IndexEntry) : Prop :=
  ∀ entry ∈ entries, '\n' ∉ entry.image.toList

/-- The text of a snapshot is read line by line, the first line being the digest of the settings. -/
theorem cacheKeyText_injective {basisDigest otherDigest : String} {entries others : List IndexEntry}
    (hDigest : '\n' ∉ basisDigest.toList) (hOther : '\n' ∉ otherDigest.toList)
    (hEntries : SingleLined entries) (hOthers : SingleLined others)
    (h : cacheKeyText basisDigest entries = cacheKeyText otherDigest others) :
    basisDigest = otherDigest ∧
      entries.map IndexEntry.snapshot = others.map IndexEntry.snapshot := by
  have hPlain {first : String} {items : List IndexEntry} (hFirst : '\n' ∉ first.toList)
      (hItems : SingleLined items) :
      ∀ line ∈ (first :: items.map IndexEntry.statLine).map String.toList, '\n' ∉ line := by
    simp only [List.forall_mem_map, List.forall_mem_cons]
    exact ⟨hFirst, fun item hItem => IndexEntry.notMem_statLine (hItems item hItem)⟩
  have hLists := congrArg String.toList h
  rw [cacheKeyText, cacheKeyText, String.toList_intercalate, String.toList_intercalate] at hLists
  have hLines := Text.intercalate_injective (hPlain hDigest hEntries) (hPlain hOther hOthers)
    (List.cons_ne_nil _ _) (List.cons_ne_nil _ _) hLists
  have hTexts := (List.map_inj_right fun _ _ hEq => String.toList_inj.mp hEq).mp hLines
  obtain ⟨hFirst, hRest⟩ := List.cons.inj hTexts
  exact ⟨hFirst, map_statLine_eq_iff.mp hRest⟩

end Snapshots

/-- The bytes whose digests tell settings apart, and those whose digests tell snapshots apart, differ
wherever the settings or the snapshots do. Every index has settings of the kind the law is about. -/
theorem hashed_texts_separate (basis other : CacheBasis) (entries others : List IndexEntry) :
    (∀ source config options decoder, (Index.basisOf source config options decoder).Formed) ∧
    (basis.Formed → other.Formed →
      (Utf8.encode basis.text = Utf8.encode other.text ↔ basis = other)) ∧
    (SingleLined entries → SingleLined others →
      (Utf8.encode (cacheKeyText basis.digest entries) =
          Utf8.encode (cacheKeyText other.digest others) ↔
        basis.digest = other.digest ∧
          entries.map IndexEntry.snapshot = others.map IndexEntry.snapshot)) := by
  refine ⟨CacheBasis.formed_basisOf, fun hBasis hOther => ?_, fun hEntries hOthers => ?_⟩
  · constructor
    · exact fun h => CacheBasis.text_injective hBasis hOther (Utf8.encode_injective h)
    · rintro rfl
      rfl
  · constructor
    · exact fun h => cacheKeyText_injective basis.notMem_digest other.notMem_digest hEntries hOthers
        (Utf8.encode_injective h)
    · rintro ⟨hDigest, hSnapshots⟩
      rw [cacheKeyText, cacheKeyText, hDigest, map_statLine_eq_iff.mpr hSnapshots]

/-- Settings of a root. -/
def CacheBasis.ofRoot (root : String) (kinds : List CheckKind) : CacheBasis :=
  ⟨root, DatasetAudit.toolVersion, kinds.map CheckKind.name, false, 8, 0⟩

/-- An entry of which only the file matters. -/
def IndexEntry.ofFile (image : String) (sizeBytes : UInt64) (mtimeNs : Int64) : IndexEntry :=
  { split := .train, image, sizeBytes, mtimeNs, labels := .missing }

/-- A root that goes on like the settings, and a path that goes on like the line of a file. -/
theorem disguised_separate :
    Utf8.encode (CacheBasis.ofRoot "/a\nversion=0.1.0\nchecks=" []).text ≠
        Utf8.encode (CacheBasis.ofRoot "/a" [.integrity]).text ∧
      Utf8.encode (cacheKeyText (CacheBasis.ofRoot "/a" []).digest [.ofFile "a|1|2" 3 (-1)]) ≠
        Utf8.encode (cacheKeyText (CacheBasis.ofRoot "/a" []).digest [.ofFile "a" 1 23]) := by
  have hLaw := hashed_texts_separate (CacheBasis.ofRoot "/a\nversion=0.1.0\nchecks=" [])
    (CacheBasis.ofRoot "/a" [.integrity]) [] []
  have hSame := hashed_texts_separate (CacheBasis.ofRoot "/a" []) (CacheBasis.ofRoot "/a" [])
    [.ofFile "a|1|2" 3 (-1)] [.ofFile "a" 1 23]
  constructor
  · intro h
    have hEq := (hLaw.2.1 ⟨rfl, [], by decide, rfl⟩ ⟨rfl, [.integrity], by decide, rfl⟩).mp h
    exact absurd hEq (by decide)
  · intro h
    have hLines := (hSame.2.2 (by simp [SingleLined, IndexEntry.ofFile])
      (by simp [SingleLined, IndexEntry.ofFile])).mp h
    exact absurd hLines.2 (by decide)

end DatasetAudit
