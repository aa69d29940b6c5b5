import DatasetAudit.Proofs.Path.Extension
import DatasetAudit.Proofs.Scan.Named
import DatasetAudit.Proofs.Scan.Unchanged

/-! What a scan finds. The records of a split are the image files below its directory, at any depth,
and each has the labels that lie in the same place under its name. Nothing is lost on the way into
an index as long as the records of a split are called differently. They are, except where a relative
root lies below a directory of images. -/

namespace DatasetAudit

namespace Scan

open DatasetAudit.Path (IsName IsPlain Shadows Suffixed)

variable {tree : FileTree} {directory root : Path} {extensions : List String}
  {place file image : Location} {files : List Location} {directories directories' : List String}
  {stem stem' : String} {part : SplitLayout} {found : SplitSource} {layout : Layout}

/-- A file by the directories on its way, its stem and its extension, which is one of a few in any
mix of cases. -/
def Spelt (extensions : List String) (file : Location) (directories : List String)
    (stem : String) : Prop :=
  ∃ name extension, file = directories ++ [name] ∧ Suffixed name stem extension ∧
    Text.lowerAscii extension ∈ extensions

theorem hasExtension_iff : hasExtension extensions file = true ↔
    ∃ directories stem, Spelt extensions file directories stem := by
  simp only [hasExtension, Option.any_eq_true, Option.bind_eq_some_iff, List.getLast?_eq_some_iff,
    Path.extension?_eq_some_iff, List.contains_iff_mem]
  constructor
  · rintro ⟨extension, ⟨name, ⟨directories, hFile⟩, stem, hName⟩, hExtension⟩
    exact ⟨directories, stem, name, extension, hFile, hName, hExtension⟩
  · rintro ⟨directories, stem, name, extension, hFile, hName, hExtension⟩
    exact ⟨extension, ⟨name, ⟨directories, hFile⟩, stem, hName⟩, hExtension⟩

theorem Spelt.stem_eq (h : Spelt extensions file directories stem) (hCurrent : stem ≠ ".")
    (hUp : stem ≠ "..") : Scan.stem file = (directories ++ [stem]).map .name := by
  obtain ⟨name, extension, rfl, hName, -⟩ := h
  rw [Scan.stem, List.map_append, List.map_append, List.map_singleton, List.map_singleton,
    Path.withoutExtension]
  simp only [List.getLast?_concat, List.dropLast_concat, hName.splitName, hCurrent, hUp,
    decide_false, Bool.or_self, Bool.false_eq_true, if_false]

/-- No file is called by one or two dots once its extension is gone. -/
def PlainStems (tree : FileTree) : Prop :=
  ∀ directories name stem extension bytes mtimeNs,
    tree.nodes[directories ++ [name]]? = some (.file bytes mtimeNs) →
      Suffixed name stem extension → stem ≠ "." ∧ stem ≠ ".."

/-- A file stands below a place. -/
def Holds (tree : FileTree) (place file : Location) : Prop :=
  ∃ bytes mtimeNs, tree.nodes[place ++ file]? = some (.file bytes mtimeNs)

theorem PlainStems.stem_eq (h : PlainStems tree) (hHolds : Holds tree place file)
    (hFile : Spelt extensions file directories stem) :
    Scan.stem file = (directories ++ [stem]).map .name := by
  obtain ⟨bytes, mtimeNs, hNode⟩ := hHolds
  obtain ⟨name, extension, rfl, hName, -⟩ := id hFile
  rw [← List.append_assoc] at hNode
  obtain ⟨hCurrent, hUp⟩ := h _ name stem extension bytes mtimeNs hNode hName
  exact hFile.stem_eq hCurrent hUp

/-- An image of a split: a file below a place with one of the extensions of images. -/
def IsImage (tree : FileTree) (place image : Location) : Prop :=
  Holds tree place image ∧
    ∃ directories stem, Spelt ["jpg", "jpeg", "png", "bmp", "webp"] image directories stem

/-- A label file of an image: a text file below the directory of labels, in the same directories and
with the same stem as the image below the directory of images. -/
def IsLabelOf (tree : FileTree) (part : SplitLayout) (image file : Location) : Prop :=
  ∃ place directories stem, tree.find part.labelsDir.text = .ok (place, .directory) ∧
    Holds tree place file ∧ Spelt ["txt"] file directories stem ∧
      Spelt ["jpg", "jpeg", "png", "bmp", "webp"] image directories stem

section Labels

/-- A table of labels has a file under every stem that one of its files has. -/
theorem exists_of_labelTable (h : file ∈ files) :
    ∃ other, (labelTable files)[Scan.stem file]? = some other := by
  induction files using List.reverseRecOn with
  | nil => cases h
  | append_singleton files last ih =>
      rw [labelTable, List.foldl_append, List.foldl_cons, List.foldl_nil, ← labelTable,
        Std.TreeMap.getElem?_insert]
      split
      · exact ⟨last, rfl⟩
      · rename_i hOther
        rcases List.mem_append.mp h with hFile | hLast
        · exact ih hFile
        · obtain rfl := List.mem_singleton.mp hLast
          exact absurd Std.ReflCmp.compare_self hOther

/-- The label files below a directory, none if there is no such directory. -/
theorem mem_listLabels_iff (h : listLabels tree directory = .ok files) : file ∈ files ↔
    ∃ place, tree.find directory.text = .ok (place, .directory) ∧ Holds tree place file ∧
      hasExtension labelExtensions file = true := by
  unfold listLabels at h
  split at h
  · obtain ⟨place, hFind⟩ := exists_find_of_listFiles h
    rw [mem_listFiles_iff hFind h]
    constructor
    · exact fun hFile => ⟨place, hFind, hFile⟩
    · rintro ⟨other, hOther, hFile⟩
      obtain rfl : place = other := congrArg Prod.fst (Except.ok.inj (hFind.symm.trans hOther))
      exact hFile
  · rename_i hNone
    obtain rfl := Except.ok.inj h
    constructor
    · nofun
    · rintro ⟨place, hFind, -⟩
      exact absurd (isDirectory_eq_true_iff.mpr ⟨place, hFind⟩) hNone

/-- The files of a table that have the stem of an image are its label files. -/
theorem isLabelOf_iff (hStems : PlainStems tree) (hImage : IsImage tree place image)
    (h : listLabels tree part.labelsDir = .ok files) :
    IsLabelOf tree part image file ↔ file ∈ files ∧ Scan.stem file = Scan.stem image := by
  obtain ⟨hHolds, directories, stem, hSpelt⟩ := hImage
  rw [mem_listLabels_iff h]
  constructor
  · rintro ⟨labels, directories', stem', hFind, hLabel, hFile, hImage⟩
    refine ⟨⟨labels, hFind, hLabel, hasExtension_iff.mpr ⟨_, _, hFile⟩⟩, ?_⟩
    rw [hStems.stem_eq hLabel hFile, hStems.stem_eq hHolds hImage]
  · rintro ⟨⟨labels, hFind, hLabel, hExtension⟩, hStem⟩
    obtain ⟨directories', stem', hFile⟩ := hasExtension_iff.mp hExtension
    rw [hStems.stem_eq hLabel hFile, hStems.stem_eq hHolds hSpelt] at hStem
    have hNames : directories' ++ [stem'] = directories ++ [stem] :=
      (List.map_inj_right fun _ _ => PathPart.name.inj).mp hStem
    obtain ⟨rfl, hLast⟩ := List.append_inj' hNames rfl
    obtain rfl := List.singleton_inj.mp hLast
    exact ⟨labels, directories', stem', hFind, hLabel, hFile, hSpelt⟩

end Labels

/-- What the record of an image says. The image is found by its path and called by it; it is labelled
if it has a label file, and then what it says is in such a file, if that can be read. -/
structure Describes (tree : FileTree) (root : Path) (part : SplitLayout) (place image : Location)
    (record : SourceRecord) : Prop where
  split : record.split = part.split
  path : record.imagePath = fileIn part.imagesDir image
  found : ∃ bytes mtimeNs,
    tree.find record.imagePath.text = .ok (place ++ image, .file bytes mtimeNs)
  text : record.image = root.relativeText record.imagePath
  label : record.label.isSome ↔ ∃ file, IsLabelOf tree part image file
  labelled : ∀ label, record.label = some label → ∃ file, IsLabelOf tree part image file ∧
    label = root.relativeText (fileIn part.labelsDir file) ∧
      ((∃ bytes, tree.read (fileIn part.labelsDir file).text = .ok bytes ∧
          record.labels = Labels.parse (Utf8.decodeLossy bytes)) ∨
        ∃ place error reason, tree.closed? place = some error ∧
          tree.read (fileIn part.labelsDir file).text = .error error ∧
            record.labels = .unreadable reason)
  unlabelled : record.label = none → record.labels = .missing

theorem describes_record (hTree : tree.WellFormed) (hStems : PlainStems tree)
    (hPlain : part.labelsDir.IsPlain) (hImage : IsImage tree place image)
    (hLies : Lies tree part.imagesDir place image)
    (h : listLabels tree part.labelsDir = .ok files) :
    Describes tree root part place image (record tree root part (labelTable files) image) := by
  have hIff (file : Location) : IsLabelOf tree part image file ↔
      file ∈ files ∧ Scan.stem file = Scan.stem image :=
    isLabelOf_iff hStems hImage h
  refine ⟨rfl, rfl, hLies.find, rfl, ?_, ?_, ?_⟩
  · rw [record]
    simp only [Option.isSome_map]
    constructor
    · intro hLabel
      obtain ⟨file, hFile⟩ := Option.isSome_iff_exists.mp hLabel
      exact ⟨file, (hIff _).mpr (mem_of_labelTable hFile)⟩
    · rintro ⟨file, hFile⟩
      obtain ⟨hMem, hStem⟩ := (hIff _).mp hFile
      obtain ⟨other, hOther⟩ := exists_of_labelTable hMem
      rw [← hStem, hOther]
      rfl
  · intro label hLabel
    rw [record] at hLabel ⊢
    simp only [Option.map_map, Option.map_eq_some_iff] at hLabel
    obtain ⟨file, hFile, rfl⟩ := hLabel
    have hMem := (mem_of_labelTable hFile).1
    obtain ⟨labels, hLabelLies, -⟩ := exists_find_of_listLabels hTree hPlain h hMem
    obtain ⟨bytes, mtimeNs, hFind⟩ := hLabelLies.find
    have hRead := FileTree.read_of_find hFind
    refine ⟨file, (hIff _).mpr (mem_of_labelTable hFile), rfl, ?_⟩
    simp only [hFile, Option.map_some, Option.elim_some, readLabels]
    cases hClosed : tree.closed? (labels ++ file) with
    | none =>
        rw [hClosed, Option.elim_none] at hRead
        simp only [hRead]
        exact .inl ⟨bytes, rfl, rfl⟩
    | some error =>
        rw [hClosed, Option.elim_some] at hRead
        simp only [hRead]
        exact .inr ⟨_, error, _, hClosed, rfl, rfl⟩
  · intro hNone
    rw [record] at hNone ⊢
    simp only [Option.map_eq_none_iff] at hNone
    simp only [hNone, Option.map_none, Option.elim_none]

/-- What a scan finds of a split: a record for each image file below its directory, each once. No two
are called alike, unless a relative root lies strictly below the directory; and there only if the path
of one behind the root is that of the other. -/
structure Complete (tree : FileTree) (root : Path) (part : SplitLayout) (found : SplitSource) :
    Prop where
  split : found.split = part.split
  images : ∃ place images, tree.find part.imagesDir.text = .ok (place, .directory) ∧
    images.Nodup ∧ (∀ image, image ∈ images ↔ IsImage tree place image) ∧
      List.Forall₂ (Describes tree root part place) images found.records
  distinct : ¬ Encloses part.imagesDir root → (found.records.map SourceRecord.image).Nodup
  alike : ∀ record ∈ found.records, ∀ other ∈ found.records, record.image = other.image →
    record.imagePath = other.imagePath ∨ Shadows root record.imagePath other.imagePath ∨
      Shadows root other.imagePath record.imagePath

theorem complete_of_split (hTree : tree.WellFormed) (hStems : PlainStems tree)
    (hImages : part.imagesDir.IsPlain) (hLabels : part.labelsDir.IsPlain)
    (h : split tree root part = .ok found) : Complete tree root part found := by
  obtain ⟨images, hListed, h⟩ := Except.exists_of_bind h
  obtain ⟨files, hFiles, h⟩ := Except.exists_of_bind h
  obtain rfl := Except.ok.inj h
  obtain ⟨place, hFind⟩ := exists_find_of_listFiles hListed
  have hNodup := listFiles_nodup hListed
  have hMem (image : Location) : image ∈ images ↔ IsImage tree place image := by
    rw [mem_listFiles_iff hFind hListed, hasExtension_iff]
    exact Iff.rfl
  have hLies {image : Location} (hImage : image ∈ images) :=
    lies_of_mem_listFiles hTree hImages hFind hListed hImage
  refine ⟨rfl, ⟨place, images, hFind, hNodup, hMem, ?_⟩, fun hApart => ?_, ?_⟩
  · rw [List.forall₂_map_right_iff, List.forall₂_same]
    intro image hImage
    exact describes_record hTree hStems hLabels ((hMem image).mp hImage) (hLies hImage) hFiles
  · rw [List.map_map]
    exact relativeText_fileIn_nodup hImages hApart hNodup fun image hImage => (hLies hImage).isName
  · rw [List.forall_mem_map]
    intro image hImage
    rw [List.forall_mem_map]
    exact fun other hOther => Path.eq_or_shadows_of_relativeText
      (fileIn_isPlain hImages (hLies hImage).isName) (fileIn_isPlain hImages (hLies hOther).isName) rfl

variable {source : Source}

/-- All splits of a scan. -/
theorem complete_of_scan (hTree : tree.WellFormed) (hStems : PlainStems tree)
    (hLayout : layout.Plain) (h : scan tree layout = .ok source) :
    source.root = layout.root ∧
      List.Forall₂ (Complete tree layout.root) layout.splits source.splits ∧
        ∃ place, tree.find source.root.text = .ok (place, .directory) := by
  obtain ⟨⟨place, hRoot, -⟩, hSplits, hSource⟩ := scan_eq_ok_iff.mp h
  have hSame : source.root = layout.root := hSource ▸ rfl
  refine ⟨hSame, ?_, place, hSame ▸ hRoot⟩
  have hEach := (List.forall₂_and_left layout.splits source.splits).mpr
    ⟨fun _ hPart => hPart, mapM_eq_ok_iff.mp hSplits⟩
  exact hEach.imp fun part _ ⟨hPart, hFound⟩ =>
    complete_of_split hTree hStems (hLayout.images part hPart) (hLayout.labels part hPart) hFound

/-- The records of a split are listed under it. -/
theorem Complete.record_split (h : Complete tree root part found) {record : SourceRecord}
    (hRecord : record ∈ found.records) : record.split = found.split := by
  obtain ⟨place, images, -, -, -, hRecords⟩ := h.images
  obtain ⟨image, -, hDescribes⟩ := exists_left_of_mem hRecords hRecord
  rw [hDescribes.split, h.split]

/-- No two records of a scan have one key if no split is given twice and the images of each are called
differently. -/
theorem keys_nodup (hDistinct : (layout.splits.map SplitLayout.split).Nodup)
    (hApart : ∀ part ∈ layout.splits, ¬ Encloses part.imagesDir layout.root)
    (h : List.Forall₂ (Complete tree layout.root) layout.splits source.splits) :
    (source.records.map SourceRecord.key).Nodup := by
  have hSplits : (source.splits.map SplitSource.split).Nodup := by
    rw [map_key_of_forall₂ (h.imp fun _ _ hFound => hFound.split)]
    exact hDistinct
  have hEach := (List.forall₂_and_left layout.splits source.splits).mpr ⟨hApart, h⟩
  have hFound : ∀ found ∈ source.splits, (∀ record ∈ found.records, record.split = found.split) ∧
      (found.records.map SourceRecord.image).Nodup := by
    intro found hFound
    obtain ⟨_, -, hPart, hComplete⟩ := exists_left_of_mem hEach hFound
    exact ⟨fun record => hComplete.record_split, hComplete.distinct hPart⟩
  rw [Source.records, List.map_flatMap, List.nodup_flatMap]
  constructor
  · intro found hMem
    apply List.Nodup.of_map ImageKey.image
    rw [List.map_map]
    exact (hFound found hMem).2
  · apply (List.pairwise_map.mp hSplits).imp_of_mem
    intro found other hFirst hSecond hNe key hKey hKey'
    obtain ⟨record, hRecord, rfl⟩ := List.mem_map.mp hKey
    obtain ⟨record', hRecord', hSame⟩ := List.mem_map.mp hKey'
    have hSplit : record'.split = record.split := congrArg ImageKey.split hSame
    rw [(hFound found hFirst).1 record hRecord, (hFound other hSecond).1 record' hRecord'] at hSplit
    exact hNe hSplit.symm

/-- Images that have one key are one. -/
def KeyedApart (source : Source) : Prop :=
  ∀ record ∈ source.records, ∀ other ∈ source.records, record.key = other.key →
    record.imagePath = other.imagePath

/-- The directories of a layout are absolute, or no split is given twice and a relative root lies
strictly below no directory of images. -/
def Settled (layout : Layout) : Prop :=
  (layout.root.absolute = true ∧ ∀ part ∈ layout.splits, part.imagesDir.absolute = true) ∨
    ((layout.splits.map SplitLayout.split).Nodup ∧
      ∀ part ∈ layout.splits, ¬ Encloses part.imagesDir layout.root)

theorem keyedApart_of_absolute (hLayout : layout.Plain)
    (hAbsolute : ∀ part ∈ layout.splits, part.imagesDir.absolute = true) (hTree : tree.WellFormed)
    (hSplits : layout.splits.mapM (split tree layout.root) = .ok source.splits) :
    KeyedApart source := by
  have hPath : ∀ record ∈ source.records, record.image = layout.root.relativeText record.imagePath ∧
      record.imagePath.IsPlain ∧ record.imagePath.absolute = true := by
    intro record hRecord
    obtain ⟨found, hFound, hRecord⟩ := List.mem_flatMap.mp hRecord
    obtain ⟨part, hPart, hSplit⟩ := exists_of_mem_mapM hSplits hFound
    have hPlain := hLayout.images part hPart
    obtain ⟨_, _, hLies, -, hPath, hText⟩ := exists_lies_of_mem_records hTree hPlain hSplit hRecord
    refine ⟨hText, ?_⟩
    rw [hPath]
    exact ⟨fileIn_isPlain hPlain hLies.isName, hAbsolute part hPart⟩
  intro record hRecord other hOther hKey
  obtain ⟨hText, hPlain, hFirst⟩ := hPath record hRecord
  obtain ⟨hText', hPlain', hSecond⟩ := hPath other hOther
  apply Path.relativeText_injective hPlain hPlain' (hFirst.trans hSecond.symm) (.inl hFirst)
  rw [← hText, ← hText']
  exact congrArg ImageKey.image hKey

end Scan

/-- An index without a limit has one entry for each key of a record. -/
theorem Index.keys_perm_of_build {files : FileView} {source : Source} {config : Config}
    {options : IndexOptions} {decoder : Decoder} {cache : IndexCache} {index : Index}
    (hAll : options.maxImages = 0)
    (h : build files source config options decoder cache = .ok index) :
    (index.entries.map IndexEntry.key).Perm (source.records.map SourceRecord.key).dedup := by
  obtain ⟨hAscending, keys, hKeys, hMem, hEntries⟩ := inOrder_of_build h
  rw [List.perm_ext_iff_of_nodup hAscending.nodup (List.nodup_dedup _)]
  intro key
  rw [hEntries, if_pos hAll, hMem, List.mem_dedup, List.mem_map]

/-- A scan finds every image of every split once, with its labels. An index of what it found has one
entry for each key, and so one for each image of a split where the keys tell the images apart. That
they do if the directories are absolute, or if no split is given twice and a relative root lies strictly
below no directory of images. -/
theorem scan_complete (tree : FileTree) (layout : Layout) (source : Source)
    (hTree : tree.WellFormed) (hStems : Scan.PlainStems tree) (hLayout : layout.Plain)
    (hScan : scan tree layout = .ok source) :
    List.Forall₂ (Scan.Complete tree layout.root) layout.splits source.splits ∧
      (Scan.Settled layout → Scan.KeyedApart source) ∧
      ∀ (config : Config) (options : IndexOptions) (decoder : Decoder) (cache : IndexCache),
        options.startWorkers options.workers = .ok () → ∃ index,
          Index.build tree.view source config { options with maxImages := 0 } decoder cache =
              .ok index ∧
            (index.entries.map IndexEntry.key).Perm (source.records.map SourceRecord.key).dedup := by
  obtain ⟨-, hComplete, place, hRoot⟩ := Scan.complete_of_scan hTree hStems hLayout hScan
  refine ⟨hComplete, ?_, fun config options decoder cache hWorkers => ?_⟩
  · obtain ⟨-, hSplits, -⟩ := Scan.scan_eq_ok_iff.mp hScan
    rintro (⟨-, hAbsolute⟩ | ⟨hDistinct, hApart⟩)
    · exact Scan.keyedApart_of_absolute hLayout hAbsolute hTree hSplits
    · have hNodup := Scan.keys_nodup hDistinct hApart hComplete
      intro record hRecord other hOther hKey
      rw [List.inj_on_of_nodup_map hNodup hRecord hOther hKey]
  · obtain ⟨index, hIndex⟩ : ∃ index, Index.build tree.view source config
        { options with maxImages := 0 } decoder cache = .ok index :=
      Index.exists_build_of_find hRoot hWorkers
    exact ⟨index, hIndex, Index.keys_perm_of_build rfl hIndex⟩

/-- The names of files without their extensions show in the list of nodes. -/
theorem Scan.plainStems_of_toList {tree : FileTree}
    (h : ∀ entry ∈ tree.nodes.toList, ∀ name ∈ entry.1.getLast?,
      (Path.splitName name).1 ≠ "." ∧ (Path.splitName name).1 ≠ "..") : PlainStems tree := by
  intro directories name stem extension bytes mtimeNs hNode hName
  have hMem := Std.TreeMap.mem_toList_iff_getElem?_eq_some.mpr hNode
  have hStem := h _ hMem name (by simp)
  rwa [hName.splitName] at hStem

/-- Two images outside of the root, one of them in a directory of its own, and their labels. -/
def nested : FileTree where
  nodes := Std.TreeMap.ofList
    [((["d"] : Location), FileNode.directory), (["d", "images"], .directory),
      (["d", "images", "a.PNG"], .file [1] 1),
      (["d", "images", "b"], .directory), (["d", "images", "b", "a.v2.jpg"], .file [2] 1),
      (["d", "images", "b", "notes.md"], .file [3] 1), (["d", "labels"], .directory),
      (["d", "labels", "a.TXT"], .file [] 1), (["d", "labels", "b"], .directory),
      (["d", "labels", "b", "a.txt"], .file [] 1), (["r"], .directory)]

/-- The layout that has those images for training. -/
def nestedLayout : Layout where
  dataYaml := "/r/data.yaml"
  root := .ofString "/r"
  classNames := ["a"]
  splits := [⟨.train, .ofString "/d/images", .ofString "/d/labels"⟩]

theorem nested_complete : nested.WellFormed ∧ Scan.PlainStems nested ∧ nestedLayout.Plain ∧
    ∃ source, scan nested nestedLayout = .ok source ∧
      source.records.map (fun record => (record.key, record.label)) =
        [(⟨.train, "//d/images/a.PNG"⟩, some "//d/labels/a.TXT"),
          (⟨.train, "//d/images/b/a.v2.jpg"⟩, none)] ∧
      List.Forall₂ (Scan.Complete nested nestedLayout.root) nestedLayout.splits source.splits ∧
      Scan.KeyedApart source ∧
      ∃ index, Index.build nested.view source {} { maxImages := 0 } .header .empty = .ok index ∧
        index.entries.length = 2 := by
  have hTree : nested.WellFormed := FileTree.wellFormed_of_toList (by decide +kernel)
  have hStems : Scan.PlainStems nested := Scan.plainStems_of_toList (by decide +kernel)
  have hLayout : nestedLayout.Plain := by
    constructor <;> simp only [nestedLayout, List.forall_mem_singleton]
    · exact Path.isPlain_ofString _
    · exact Path.isPlain_ofString _
  have hSettled : Scan.Settled nestedLayout := .inl (by decide)
  obtain ⟨source, hScan, hRecords⟩ : ∃ source, scan nested nestedLayout = .ok source ∧
      source.records.map (fun record => (record.key, record.label)) =
        [(⟨.train, "//d/images/a.PNG"⟩, some "//d/labels/a.TXT"),
          (⟨.train, "//d/images/b/a.v2.jpg"⟩, none)] :=
    Except.exists_of_toOption_map (by decide +kernel)
  obtain ⟨hComplete, hApart, hIndex⟩ :=
    scan_complete nested nestedLayout source hTree hStems hLayout hScan
  obtain ⟨index, hBuild, hPerm⟩ := hIndex {} {} .header .empty rfl
  have hKeys : source.records.map SourceRecord.key =
      [⟨.train, "//d/images/a.PNG"⟩, ⟨.train, "//d/images/b/a.v2.jpg"⟩] := by
    have hFirst := congrArg (List.map Prod.fst) hRecords
    rwa [List.map_map] at hFirst
  have hLength : index.entries.length = 2 := by
    have hEntries := hPerm.length_eq
    rw [hKeys, List.length_map] at hEntries
    exact hEntries.trans (by decide)
  exact ⟨hTree, hStems, hLayout, source, hScan, hRecords, hComplete, hApart hSettled, index, hBuild,
    hLength⟩

/-- Two images. One lies outside of a relative root, and the other is called below the root as that one
is called in full. -/
def enclosed : FileTree where
  nodes := Std.TreeMap.ofList
    [((["a"] : Location), FileNode.directory), (["a", "b"], .directory),
      (["a", "b", "a"], .directory), (["a", "b", "a", "x.png"], .file [1] 1),
      (["a", "x.png"], .file [2] 1)]

/-- The layout that has those images for training. -/
def enclosedLayout : Layout where
  dataYaml := "a/b/data.yaml"
  root := .ofString "a/b"
  classNames := ["c"]
  splits := [⟨.train, .ofString "a", .ofString "labels"⟩]

theorem enclosed_confused : enclosed.WellFormed ∧ Scan.PlainStems enclosed ∧
    Layout.parse "a/b/data.yaml" "names: [c]\ntrain: ..\n" [] = .ok enclosedLayout ∧
    enclosedLayout.Plain ∧
    ∃ source, scan enclosed enclosedLayout = .ok source ∧
      source.records.map (fun record => (record.imagePath.text, record.key)) =
        [("a/b/a/x.png", ⟨.train, "a/x.png"⟩), ("a/x.png", ⟨.train, "a/x.png"⟩)] ∧
      ∃ index, Index.build enclosed.view source {} {} .header .empty = .ok index ∧
        index.entries.length = 1 := by
  have hTree : enclosed.WellFormed := FileTree.wellFormed_of_toList (by decide +kernel)
  have hStems : Scan.PlainStems enclosed := Scan.plainStems_of_toList (by decide +kernel)
  have hLayout : Layout.parse "a/b/data.yaml" "names: [c]\ntrain: ..\n" [] = .ok enclosedLayout :=
    Except.eq_ok_of_toOption (by decide +kernel)
  obtain ⟨source, hScan, hRecords⟩ : ∃ source, scan enclosed enclosedLayout = .ok source ∧
      source.records.map (fun record => (record.imagePath.text, record.key)) =
        [("a/b/a/x.png", ⟨.train, "a/x.png"⟩), ("a/x.png", ⟨.train, "a/x.png"⟩)] :=
    Except.exists_of_toOption_map (by decide +kernel)
  have hKeys : source.records.map SourceRecord.key =
      [⟨.train, "a/x.png"⟩, ⟨.train, "a/x.png"⟩] := by
    have hSecond := congrArg (List.map Prod.snd) hRecords
    rwa [List.map_map] at hSecond
  obtain ⟨⟨place, hRoot, -⟩, -, hSource⟩ := Scan.scan_eq_ok_iff.mp hScan
  have hSame : source.root = enclosedLayout.root := congrArg Source.root hSource
  obtain ⟨index, hBuild⟩ : ∃ index,
      Index.build enclosed.view source {} {} .header .empty = .ok index :=
    Index.exists_build_of_find (hSame ▸ hRoot) rfl
  have hLength : index.entries.length = 1 := by
    have hEntries := (Index.keys_perm_of_build rfl hBuild).length_eq
    rw [hKeys, List.length_map] at hEntries
    exact hEntries.trans (by decide)
  exact ⟨hTree, hStems, hLayout, Layout.plain_of_parse hLayout, source, hScan, hRecords, index, hBuild,
    hLength⟩

end DatasetAudit
