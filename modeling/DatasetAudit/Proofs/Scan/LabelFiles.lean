import DatasetAudit.Proofs.Scan.Complete

/-! Where the label files of a split go. Of label files with one stem the last stands for all: it
labels the images with that stem or, if there are none, belongs to no image. What comes before it is
not mentioned at all, so that nothing is lost exactly if the stems are different. -/

namespace DatasetAudit

/-- How often a scanned split mentions a label file: once for all images that it labels, and once for
every place among the label files without an image. -/
def SplitSource.mentions (found : SplitSource) (label : String) : Nat :=
  (if found.records.any fun record => record.label == some label then 1 else 0) +
    found.orphanLabels.count label

namespace Scan

variable {tree : FileTree} {root : Path} {part : SplitLayout} {found : SplitSource}
  {layout : Layout} {file other image : Location} {files images : List Location}
  {parts : List PathPart}

/-- A label file of a split: a text file below its directory of labels. -/
def IsLabelFile (tree : FileTree) (part : SplitLayout) (file : Location) : Prop :=
  ∃ place, tree.find part.labelsDir.text = .ok (place, .directory) ∧ Holds tree place file ∧
    ∃ directories stem, Spelt ["txt"] file directories stem

/-- A label file that comes last among those with its stem. -/
def Stands (tree : FileTree) (part : SplitLayout) (file : Location) : Prop :=
  IsLabelFile tree part file ∧
    ∀ other, IsLabelFile tree part other → stem other = stem file → (compare other file).isLE

/-- What a label file is called. -/
def labelName (root : Path) (part : SplitLayout) (file : Location) : String :=
  root.relativeText (fileIn part.labelsDir file)

/-- The label files of a split are told apart by what they are called. -/
def NamesApart (tree : FileTree) (root : Path) (part : SplitLayout) : Prop :=
  ∀ file other, IsLabelFile tree part file → IsLabelFile tree part other →
    labelName root part file = labelName root part other → file = other

/-- The label files of a split are told apart by their stems. -/
def StemsApart (tree : FileTree) (part : SplitLayout) : Prop :=
  ∀ file other, IsLabelFile tree part file → IsLabelFile tree part other →
    stem file = stem other → file = other

theorem mem_listLabels_iff_isLabelFile (h : listLabels tree part.labelsDir = .ok files) :
    file ∈ files ↔ IsLabelFile tree part file := by
  rw [mem_listLabels_iff h, hasExtension_iff]
  exact Iff.rfl

theorem listLabels_ascending {directory : Path} (h : listLabels tree directory = .ok files) :
    Ascending id files := by
  unfold listLabels at h
  split at h
  · exact listFiles_ascending h
  · obtain rfl := Except.ok.inj h
    exact .nil

/-- Under a stem a table of labels holds the last file that has it. -/
theorem getElem?_labelTable_eq_some_iff (hFiles : Ascending id files) :
    (labelTable files)[parts]? = some file ↔ file ∈ files ∧ stem file = parts ∧
      ∀ other ∈ files, stem other = parts → (compare other file).isLE := by
  induction files using List.reverseRecOn with
  | nil => simp [labelTable]
  | append_singleton files last ih =>
      obtain ⟨hFiles, -, hLess⟩ := List.pairwise_append.mp hFiles
      have hLess (other : Location) (hOther : other ∈ files) : compare other last = .lt :=
        hLess other hOther last (List.mem_singleton_self last)
      rw [labelTable, List.foldl_append, List.foldl_cons, List.foldl_nil, ← labelTable,
        Std.TreeMap.getElem?_insert]
      simp only [List.mem_append, List.mem_singleton]
      split
      · rename_i hStem
        obtain rfl : stem last = parts := Std.LawfulEqCmp.eq_of_compare hStem
        constructor
        · rintro ⟨⟩
          refine ⟨.inr rfl, rfl, ?_⟩
          rintro other (hOther | rfl) -
          · exact Ordering.isLE_of_eq_lt (hLess other hOther)
          · exact Ordering.isLE_of_eq_eq Std.ReflCmp.compare_self
        · rintro ⟨hFile | rfl, -, hLast⟩
          · have hAbove := hLast last (.inr rfl) rfl
            rw [Std.OrientedCmp.gt_of_lt (hLess file hFile)] at hAbove
            cases hAbove
          · rfl
      · rename_i hOther
        have hStem : stem last ≠ parts := fun hStem => hOther (hStem ▸ Std.ReflCmp.compare_self)
        rw [ih hFiles]
        constructor
        · rintro ⟨hFile, hParts, hLast⟩
          refine ⟨.inl hFile, hParts, ?_⟩
          rintro other (hOther | rfl) hParts
          · exact hLast other hOther hParts
          · exact absurd hParts hStem
        · rintro ⟨hFile | rfl, hParts, hLast⟩
          · exact ⟨hFile, hParts, fun other hOther => hLast other (.inl hOther)⟩
          · exact absurd hParts hStem

/-- The files that stand are those that the table of labels keeps. -/
theorem getElem?_labelTable_stem (h : listLabels tree part.labelsDir = .ok files) :
    (labelTable files)[stem file]? = some file ↔ Stands tree part file := by
  simp only [getElem?_labelTable_eq_some_iff (listLabels_ascending h),
    mem_listLabels_iff_isLabelFile h, true_and]
  exact Iff.rfl

theorem mem_orphans_iff : file ∈ orphans (labelTable files) images ↔
    (labelTable files)[stem file]? = some file ∧ stem file ∉ images.map stem := by
  have hStems (parts : List PathPart) :
      (!(Std.TreeSet.ofList (images.map stem)).contains parts) = true ↔ parts ∉ images.map stem := by
    rw [Std.TreeSet.contains_ofList, Bool.not_eq_true', ← Bool.not_eq_true, List.contains_iff_mem]
  rw [orphans, List.mem_map]
  constructor
  · rintro ⟨⟨parts, other⟩, hEntry, rfl⟩
    obtain ⟨hMem, hNone⟩ := List.mem_filter.mp hEntry
    have hFound := Std.TreeMap.mem_toList_iff_getElem?_eq_some.mp hMem
    obtain rfl := (mem_of_labelTable hFound).2
    exact ⟨hFound, (hStems _).mp hNone⟩
  · rintro ⟨hFound, hNone⟩
    have hMem := Std.TreeMap.mem_toList_iff_getElem?_eq_some.mpr hFound
    exact ⟨(stem file, file), List.mem_filter.mpr ⟨hMem, (hStems _).mpr hNone⟩, rfl⟩

/-- The label files that stand are shared out: some are the labels of images, the others are left. -/
structure Shares (tree : FileTree) (root : Path) (part : SplitLayout) (found : SplitSource)
    (labels : List (Option Location)) (left : List Location) : Prop where
  records : found.records.map SourceRecord.label = labels.map (Option.map (labelName root part))
  orphans : found.orphanLabels = left.map (labelName root part)
  nodup : left.Nodup
  stands : ∀ file, Stands tree part file ↔ some file ∈ labels ∨ file ∈ left
  apart : ∀ file ∈ left, some file ∉ labels

theorem exists_shares_of_split (h : split tree root part = .ok found) :
    ∃ labels left, Shares tree root part found labels left := by
  obtain ⟨images, files, hFiles, -, hRecords, hOrphans⟩ := exists_of_split h
  have hLabel (file : Location) :
      some file ∈ images.map (fun image => (labelTable files)[stem image]?) ↔
        (labelTable files)[stem file]? = some file ∧ stem file ∈ images.map stem := by
    simp only [List.mem_map]
    constructor
    · rintro ⟨image, hImage, hFound⟩
      have hStem := (mem_of_labelTable hFound).2
      exact ⟨hStem ▸ hFound, image, hImage, hStem.symm⟩
    · rintro ⟨hFound, image, hImage, hStem⟩
      exact ⟨image, hImage, hStem ▸ hFound⟩
  refine ⟨images.map fun image => (labelTable files)[stem image]?, orphans (labelTable files) images,
    ?_, hOrphans, orphans_nodup files images, fun file => ?_, fun file hFile hMem => ?_⟩
  · rw [hRecords, List.map_map, List.map_map]
    apply List.map_congr_left
    intro image _
    exact Option.map_map _ _ _
  · rw [hLabel, mem_orphans_iff, getElem?_labelTable_stem hFiles, ← and_or_left]
    exact (and_iff_left (em _)).symm
  · exact (mem_orphans_iff.mp hFile).2 ((hLabel file).mp hMem).2

namespace Shares

variable {labels : List (Option Location)} {left : List Location}

theorem isLabelFile (h : Shares tree root part found labels left)
    (hFile : some file ∈ labels ∨ file ∈ left) : IsLabelFile tree part file :=
  ((h.stands file).mpr hFile).1

/-- A file that stands is mentioned where it was put. -/
theorem mentions_eq (h : Shares tree root part found labels left)
    (hNames : NamesApart tree root part) (hFile : IsLabelFile tree part file) :
    found.mentions (labelName root part file) =
      (if some file ∈ labels then 1 else 0) + if file ∈ left then 1 else 0 := by
  have hLabel : (found.records.any fun record =>
      record.label == some (labelName root part file)) = true ↔ some file ∈ labels := by
    have hMem : some (labelName root part file) ∈ found.records.map SourceRecord.label ↔
        some file ∈ labels := by
      rw [h.records, List.mem_map]
      constructor
      · rintro ⟨label, hMem, hLabel⟩
        obtain ⟨other, rfl, hName⟩ := Option.map_eq_some_iff.mp hLabel
        obtain rfl := hNames other file (h.isLabelFile (.inl hMem)) hFile hName
        exact hMem
      · exact fun hMem => ⟨some file, hMem, rfl⟩
    rw [← hMem]
    simp
  have hLeft : labelName root part file ∈ found.orphanLabels ↔ file ∈ left := by
    rw [h.orphans, List.mem_map]
    constructor
    · rintro ⟨other, hMem, hName⟩
      obtain rfl := hNames other file (h.isLabelFile (.inr hMem)) hFile hName
      exact hMem
    · exact fun hMem => ⟨file, hMem, rfl⟩
  have hNodup : found.orphanLabels.Nodup := by
    rw [h.orphans]
    apply h.nodup.map_on
    intro file hFile other hOther
    exact hNames file other (h.isLabelFile (.inr hFile)) (h.isLabelFile (.inr hOther))
  rw [SplitSource.mentions, hNodup.count]
  simp only [hLabel, hLeft]

theorem mentions_of_stands (h : Shares tree root part found labels left)
    (hNames : NamesApart tree root part) (hFile : Stands tree part file) :
    found.mentions (labelName root part file) = 1 := by
  rw [h.mentions_eq hNames hFile.1]
  by_cases hLeft : file ∈ left
  · rw [if_neg (h.apart file hLeft), if_pos hLeft]
  · rw [if_pos (((h.stands file).mp hFile).resolve_right hLeft), if_neg hLeft]

theorem mentions_of_not_stands (h : Shares tree root part found labels left)
    (hNames : NamesApart tree root part) (hFile : IsLabelFile tree part file)
    (hNot : ¬ Stands tree part file) : found.mentions (labelName root part file) = 0 := by
  rw [h.stands, not_or] at hNot
  rw [h.mentions_eq hNames hFile, if_neg hNot.1, if_neg hNot.2]

end Shares

/-- All label files stand exactly if no two have one stem. -/
theorem stands_all_iff : (∀ file, IsLabelFile tree part file → Stands tree part file) ↔
    StemsApart tree part := by
  constructor
  · intro hStands file other hFile hOther hStem
    have hBelow := (hStands other hOther).2 file hFile hStem
    have hAbove := (hStands file hFile).2 other hOther hStem.symm
    exact Std.LawfulEqCmp.eq_of_compare (Std.OrientedCmp.isLE_antisymm hBelow hAbove)
  · intro hApart file hFile
    refine ⟨hFile, fun other hOther hStem => ?_⟩
    obtain rfl := hApart other file hOther hFile hStem
    exact Ordering.isLE_of_eq_eq Std.ReflCmp.compare_self

/-- What a scan makes of the label files of a split. Those that stand are shared out; where files are
told apart by what they are called, they are mentioned once and the others never. -/
structure Accounts (tree : FileTree) (root : Path) (part : SplitLayout) (found : SplitSource) :
    Prop where
  shared : ∃ labels left, Shares tree root part found labels left
  once : NamesApart tree root part → ∀ file, Stands tree part file →
    found.mentions (labelName root part file) = 1
  lost : NamesApart tree root part → ∀ file, IsLabelFile tree part file → ¬ Stands tree part file →
    found.mentions (labelName root part file) = 0
  lossless : NamesApart tree root part →
    ((∀ file, IsLabelFile tree part file → found.mentions (labelName root part file) = 1) ↔
      StemsApart tree part)

theorem accounts_of_split (h : split tree root part = .ok found) : Accounts tree root part found := by
  obtain ⟨labels, left, hShares⟩ := exists_shares_of_split h
  refine ⟨⟨labels, left, hShares⟩, fun hNames file hFile => hShares.mentions_of_stands hNames hFile,
    fun hNames file hFile hNot => hShares.mentions_of_not_stands hNames hFile hNot,
    fun hNames => ?_⟩
  rw [← stands_all_iff]
  refine forall₂_congr fun file hFile => ?_
  constructor
  · intro hOnce
    by_contra hNot
    rw [hShares.mentions_of_not_stands hNames hFile hNot] at hOnce
    cases hOnce
  · exact hShares.mentions_of_stands hNames

/-- The directories of labels are such as texts name, and a relative root lies below none of them. -/
def LabelsAnchored (layout : Layout) : Prop :=
  ∀ part ∈ layout.splits, part.labelsDir.IsPlain ∧ ¬ Encloses part.labelsDir layout.root

/-- So it is in every layout that has been found in a tree. -/
theorem labelsAnchored_of_resolved (h : layout.Resolved) : LabelsAnchored layout := by
  intro part hPart
  obtain ⟨_, hNames⟩ := h.labels part hPart
  exact ⟨hNames.isPlain, not_encloses_of_resolved h part.labelsDir⟩

theorem namesApart_of_listLabels (hTree : tree.WellFormed) (hPlain : part.labelsDir.IsPlain)
    (hApart : ¬ Encloses part.labelsDir root) (h : listLabels tree part.labelsDir = .ok files) :
    NamesApart tree root part := by
  intro file other hFile hOther hName
  rw [← mem_listLabels_iff_isLabelFile h] at hFile hOther
  obtain ⟨_, hLies, -⟩ := exists_find_of_listLabels hTree hPlain h hFile
  obtain ⟨_, hLies', -⟩ := exists_find_of_listLabels hTree hPlain h hOther
  exact relativeText_fileIn_injective hPlain hApart hLies.isName hLies'.isName hName

end Scan

/-- A scan accounts for the label files of every split: the last of each stem is mentioned once and the
others are not, so that none is lost exactly if the stems differ. They are told apart by what they are
called, except where a relative root lies below a directory of labels. -/
theorem scan_accounts_for_labels (tree : FileTree) (layout : Layout) (source : Source)
    (hScan : scan tree layout = .ok source) :
    List.Forall₂ (Scan.Accounts tree layout.root) layout.splits source.splits ∧
      (tree.WellFormed → Scan.LabelsAnchored layout →
        ∀ part ∈ layout.splits, Scan.NamesApart tree layout.root part) := by
  obtain ⟨-, hSplits, -⟩ := Scan.scan_eq_ok_iff.mp hScan
  have hEach := Scan.mapM_eq_ok_iff.mp hSplits
  refine ⟨hEach.imp fun _ _ => Scan.accounts_of_split, fun hTree hLayout part hPart => ?_⟩
  obtain ⟨found, -, hFound⟩ := Scan.exists_left_of_mem hEach.flip hPart
  obtain ⟨_, files, hFiles, -⟩ := Scan.exists_of_split hFound
  exact Scan.namesApart_of_listLabels hTree (hLayout part hPart).1 (hLayout part hPart).2 hFiles

/-- Three label files, two of which differ only in the case of their extensions. The other one labels
an image. -/
def twins : FileTree where
  nodes := Std.TreeMap.ofList
    [((["d"] : Location), FileNode.directory), (["d", "images"], .directory),
      (["d", "images", "b.jpg"], .file [1] 1), (["d", "labels"], .directory),
      (["d", "labels", "a.TXT"], .file [] 1), (["d", "labels", "a.txt"], .file [] 1),
      (["d", "labels", "b.txt"], .file [] 1)]

/-- The directories of those files. -/
def twinsPart : SplitLayout where
  split := .train
  imagesDir := .ofString "/d/images"
  labelsDir := .ofString "/d/labels"

/-- The layout that has them for training. -/
def twinsLayout : Layout where
  dataYaml := "/d/data.yaml"
  root := .ofString "/d"
  classNames := ["a"]
  splits := [twinsPart]

/-- What the scan of those files mentions. -/
theorem scan_twins : ∃ source, scan twins twinsLayout = .ok source ∧
    source.splits.map (fun found => (found.records.map SourceRecord.label, found.orphanLabels)) =
      [([some "labels/b.txt"], ["labels/a.txt"])] :=
  Except.exists_of_toOption_map (by decide +kernel)

theorem twins_account : twins.WellFormed ∧ Scan.LabelsAnchored twinsLayout ∧
    ∃ source, scan twins twinsLayout = .ok source ∧
      List.Forall₂ (Scan.Accounts twins twinsLayout.root) twinsLayout.splits source.splits ∧
        Scan.NamesApart twins twinsLayout.root twinsPart := by
  have hTree : twins.WellFormed := FileTree.wellFormed_of_toList (by decide +kernel)
  have hLayout : Scan.LabelsAnchored twinsLayout := by
    intro part hPart
    obtain rfl := List.mem_singleton.mp hPart
    exact ⟨Path.isPlain_ofString _, fun ⟨hRelative, _⟩ => nomatch hRelative⟩
  obtain ⟨source, hScan, -⟩ := scan_twins
  obtain ⟨hAccounts, hNames⟩ := scan_accounts_for_labels twins twinsLayout source hScan
  exact ⟨hTree, hLayout, source, hScan, hAccounts,
    hNames hTree hLayout twinsPart (List.mem_singleton_self _)⟩

/-- The first of the two files that differ in their extensions is neither the label of an image nor
among the label files without one. -/
theorem twins_forgotten : ∃ source found, scan twins twinsLayout = .ok source ∧
    source.splits = [found] ∧ Scan.IsLabelFile twins twinsPart ["a.TXT"] ∧
      Scan.labelName twinsLayout.root twinsPart ["a.TXT"] = "labels/a.TXT" ∧
        (∀ record ∈ found.records, record.label ≠ some "labels/a.TXT") ∧
          "labels/a.TXT" ∉ found.orphanLabels := by
  have hFind : twins.find twinsPart.labelsDir.text = .ok (["d", "labels"], .directory) := by
    decide +kernel
  have hHolds : Scan.Holds twins ["d", "labels"] ["a.TXT"] := ⟨[], 1, by decide +kernel⟩
  have hSpelt : Scan.Spelt ["txt"] ["a.TXT"] [] "a" :=
    ⟨"a.TXT", "TXT", rfl, ⟨by decide, by decide, by decide⟩, by decide +kernel⟩
  have hFile : Scan.IsLabelFile twins twinsPart ["a.TXT"] := ⟨_, hFind, hHolds, [], "a", hSpelt⟩
  obtain ⟨source, hScan, hSplits⟩ := scan_twins
  obtain ⟨found, hFound, hLists⟩ := List.map_eq_singleton_iff.mp hSplits
  obtain ⟨hRecords, hOrphans⟩ := Prod.mk.inj hLists
  refine ⟨source, found, hScan, hFound, hFile, by decide +kernel, ?_, ?_⟩
  · intro record hRecord hLabel
    have hMem : some "labels/a.TXT" ∈ found.records.map SourceRecord.label :=
      List.mem_map.mpr ⟨record, hRecord, hLabel⟩
    rw [hRecords] at hMem
    revert hMem
    decide
  · rw [hOrphans]
    decide

end DatasetAudit
