import DatasetAudit.Proofs.FileTree.Basic
import DatasetAudit.Proofs.Grouping
import DatasetAudit.Scan
import Mathlib.Data.List.Forall2

/-! The files that a scan lists. Each of them is found in the tree by the path that the scan gives
it, and different files of a directory are called differently. -/

namespace DatasetAudit

namespace Scan

open DatasetAudit.Path (IsName HasNames)
open FileTree (WellFormed)

variable {tree : FileTree} {directory root : Path} {names extensions : List String}
  {place file other : Location} {files : List Location}

theorem fileBelow?_eq_some_iff {node : FileNode} :
    FileTree.fileBelow? place (other, node) = some file ↔
      (∃ bytes mtimeNs, node = .file bytes mtimeNs) ∧ other = place ++ file := by
  cases node with
  | directory => simp [FileTree.fileBelow?]
  | file bytes mtimeNs =>
      rw [FileTree.fileBelow?]
      constructor
      · intro h
        split at h
        · rename_i hPrefix
          obtain ⟨rest, rfl⟩ := List.isPrefixOf_iff_prefix.mp hPrefix
          obtain rfl : rest = file := by simpa using h
          exact ⟨⟨bytes, mtimeNs, rfl⟩, rfl⟩
        · cases h
      · rintro ⟨-, rfl⟩
        simp

/-- A directory is listed if a path leads to it and no directory on the walk is closed. -/
theorem listFiles_eq_ok_iff : listFiles tree directory extensions = .ok files ↔
    ∃ place, tree.find directory.text = .ok (place, .directory) ∧ tree.stop? place = none ∧
      files = (tree.nodes.toList.filterMap (FileTree.fileBelow? place)).filter
        (hasExtension extensions) := by
  constructor
  · intro h
    unfold listFiles at h
    split at h
    · rename_i place hFind
      cases hStop : tree.stop? place with
      | some stop =>
          simp only [FileTree.filesBelow, hStop] at h
          cases h
      | none =>
          simp only [FileTree.filesBelow, hStop] at h
          exact ⟨place, hFind, hStop, (Except.ok.inj h).symm⟩
    · cases h
  · rintro ⟨place, hFind, hStop, rfl⟩
    simp only [listFiles, hFind, FileTree.filesBelow, hStop]

/-- The files with given extensions below a directory are those that the tree has there. -/
theorem mem_listFiles_iff (hFind : tree.find directory.text = .ok (place, .directory))
    (h : listFiles tree directory extensions = .ok files) : file ∈ files ↔
      (∃ bytes mtimeNs, tree.nodes[place ++ file]? = some (.file bytes mtimeNs)) ∧
        hasExtension extensions file = true := by
  obtain ⟨found, hFound, -, rfl⟩ := listFiles_eq_ok_iff.mp h
  obtain rfl : place = found := congrArg Prod.fst (Except.ok.inj (hFind.symm.trans hFound))
  rw [List.mem_filter, List.mem_filterMap]
  constructor
  · rintro ⟨⟨⟨other, node⟩, hMem, hBelow⟩, hExtension⟩
    obtain ⟨⟨bytes, mtimeNs, rfl⟩, rfl⟩ := fileBelow?_eq_some_iff.mp hBelow
    rw [Std.TreeMap.mem_toList_iff_getElem?_eq_some] at hMem
    exact ⟨⟨bytes, mtimeNs, hMem⟩, hExtension⟩
  · rintro ⟨⟨bytes, mtimeNs, hNode⟩, hExtension⟩
    refine ⟨⟨(place ++ file, .file bytes mtimeNs), ?_, ?_⟩, hExtension⟩
    · rwa [Std.TreeMap.mem_toList_iff_getElem?_eq_some]
    · exact fileBelow?_eq_some_iff.mpr ⟨⟨bytes, mtimeNs, rfl⟩, rfl⟩

theorem compare_append (place file other : Location) :
    compare (place ++ file) (place ++ other) = compare file other := by
  induction place with
  | nil => rfl
  | cons name place ih =>
      have hName : compare name name = .eq := Std.ReflCmp.compare_self
      rw [List.compare_eq_compareLex] at ih ⊢
      rw [List.cons_append, List.cons_append, List.compareLex_cons_cons, hName, Ordering.eq_then, ih]

/-- Files are listed in ascending order. -/
theorem listFiles_ascending (h : listFiles tree directory extensions = .ok files) :
    Ascending id files := by
  obtain ⟨place, -, -, rfl⟩ := listFiles_eq_ok_iff.mp h
  apply List.Pairwise.filter
  apply tree.nodes.ordered_keys_toList.filterMap
  rintro ⟨other, node⟩ ⟨other', node'⟩ hLess file hFile file' hFile'
  obtain ⟨-, rfl⟩ := fileBelow?_eq_some_iff.mp hFile
  obtain ⟨-, rfl⟩ := fileBelow?_eq_some_iff.mp hFile'
  rwa [compare_append] at hLess

/-- No file is listed twice. -/
theorem listFiles_nodup (h : listFiles tree directory extensions = .ok files) : files.Nodup := by
  have hNodup := (listFiles_ascending h).nodup
  rwa [List.map_id] at hNodup

theorem exists_find_of_listFiles (h : listFiles tree directory extensions = .ok files) :
    ∃ place, tree.find directory.text = .ok (place, .directory) := by
  obtain ⟨place, hFind, -, -⟩ := listFiles_eq_ok_iff.mp h
  exact ⟨place, hFind⟩

/-- A file below a directory: where it is, what it holds, and what it is called. -/
structure Lies (tree : FileTree) (directory : Path) (place file : Location) : Prop where
  nonempty : file ≠ []
  isName : ∀ name ∈ file, IsName name
  find : ∃ bytes mtimeNs,
    tree.find (fileIn directory file).text = .ok (place ++ file, .file bytes mtimeNs)

theorem fileIn_concat (directory : Path) (file : Location) (last : String) :
    fileIn directory (file ++ [last]) = (fileIn directory file).push last := by
  rw [fileIn, List.map_append, ← List.append_assoc]
  rfl

theorem fileIn_isPlain (h : directory.IsPlain) (hFile : ∀ name ∈ file, IsName name) :
    (fileIn directory file).IsPlain :=
  Path.isPlain_append h (Path.isName_of_mem_names hFile)

/-- The text of a path below a directory goes on with names behind the text of the directory,
whatever that stands for. -/
theorem ofString_text_fileIn (h : directory.IsPlain) (hFile : ∀ name ∈ file, IsName name) :
    Path.ofString (fileIn directory file).text = fileIn (Path.ofString directory.text) file := by
  induction file using List.reverseRecOn with
  | nil =>
      simp only [fileIn, List.map_nil, List.append_nil]
  | append_singleton file last ih =>
      rw [List.forall_mem_append, List.forall_mem_singleton] at hFile
      rw [fileIn_concat, fileIn_concat, Path.text_push (fileIn_isPlain h hFile.1),
        Path.ofString_joinText _ hFile.2, ih hFile.1]

theorem noNul_text_fileIn (h : directory.IsPlain) (hNul : '\x00' ∉ directory.text.toList)
    (hFile : ∀ name ∈ file, FileTree.Allowed name) :
    '\x00' ∉ (fileIn directory file).text.toList := by
  induction file using List.reverseRecOn with
  | nil =>
      simp only [fileIn, List.map_nil, List.append_nil]
      exact hNul
  | append_singleton file last ih =>
      rw [List.forall_mem_append, List.forall_mem_singleton] at hFile
      have hPlain := fileIn_isPlain h fun name hName => (hFile.1 name hName).isName
      obtain ⟨between, hBetween, hText⟩ :=
        Path.toList_joinText (fileIn directory file).text last
      have hSlash : '\x00' ∉ between := fun hMem => absurd (hBetween hMem) (by decide)
      rw [fileIn_concat, Path.text_push hPlain, hText]
      simp only [List.mem_append, not_or]
      exact ⟨⟨ih hFile.1, hSlash⟩, hFile.2.noNul⟩

/-- What stands below a directory is found behind the text of the directory. -/
theorem find_fileIn {node : FileNode} (hTree : tree.WellFormed) (h : directory.IsPlain)
    (hFind : tree.find directory.text = .ok (place, .directory)) (hNonempty : file ≠ [])
    (hNode : tree.node? (place ++ file) = some node) :
    tree.find (fileIn directory file).text = .ok (place ++ file, node) := by
  obtain ⟨hLocate, -⟩ := FileTree.find_eq_ok_iff.mp hFind
  obtain ⟨-, hNul, hFollow, -⟩ := FileTree.locate_eq_ok hLocate
  have hAllowed : ∀ name ∈ file, FileTree.Allowed name := fun name hName =>
    hTree.allowed_of_node? hNode name (List.mem_append_right _ hName)
  have hNames : ∀ name ∈ file, IsName name := fun name hName => (hAllowed name hName).isName
  have hThere : tree.follow (tree.start (Path.ofString (fileIn directory file).text))
      (Path.ofString (fileIn directory file).text).parts = .ok (place ++ file) := by
    rw [ofString_text_fileIn h hNames]
    change tree.follow (tree.start (Path.ofString directory.text)) (_ ++ _) = _
    rw [FileTree.follow_append, hFollow]
    exact hTree.follow_names hNode
  obtain ⟨between, last, rfl⟩ : ∃ between last, file = between ++ [last] :=
    ⟨file.dropLast, file.getLast hNonempty, (List.dropLast_append_getLast hNonempty).symm⟩
  have hLast : IsName last := hNames last (by simp)
  have hPlain : (fileIn directory between).IsPlain :=
    fileIn_isPlain h fun name hName => hNames name (List.mem_append_left _ hName)
  obtain ⟨slash, -, hText⟩ := Path.toList_joinText (fileIn directory between).text last
  rw [← Path.text_push hPlain, ← fileIn_concat] at hText
  refine FileTree.find_eq_ok_iff.mpr ⟨FileTree.locate_of_follow ?_
    (noNul_text_fileIn h hNul hAllowed) hThere ?_, hNode⟩
  · rw [hText]
    exact List.append_ne_nil_of_right_ne_nil _ hLast.nonempty
  · rw [FileTree.isDirectoryPath_of_name hLast hText]
    nofun

/-- A file that is listed stands below the directory, under names. -/
theorem exists_node_of_mem_listFiles (hTree : tree.WellFormed)
    (hFind : tree.find directory.text = .ok (place, .directory))
    (h : listFiles tree directory extensions = .ok files) (hFile : file ∈ files) :
    file ≠ [] ∧ ∃ bytes mtimeNs, tree.node? (place ++ file) = some (.file bytes mtimeNs) := by
  obtain ⟨-, hDirectory⟩ := FileTree.find_eq_ok_iff.mp hFind
  obtain ⟨⟨bytes, mtimeNs, hNode⟩, -⟩ := (mem_listFiles_iff hFind h).mp hFile
  have hPlace : place ++ file ≠ [] := by
    intro hNil
    rw [hNil] at hNode
    exact hTree.root (Std.TreeMap.mem_iff_isSome_getElem?.mpr (by rw [hNode]; rfl))
  rw [← FileTree.node?_eq_getElem? hPlace] at hNode
  refine ⟨?_, bytes, mtimeNs, hNode⟩
  rintro rfl
  rw [List.append_nil, hDirectory] at hNode
  cases hNode

/-- Every listed file lies below its directory. -/
theorem lies_of_mem_listFiles (hTree : tree.WellFormed) (hPlain : directory.IsPlain)
    (hFind : tree.find directory.text = .ok (place, .directory))
    (h : listFiles tree directory extensions = .ok files) (hFile : file ∈ files) :
    Lies tree directory place file := by
  obtain ⟨hNonempty, bytes, mtimeNs, hNode⟩ := exists_node_of_mem_listFiles hTree hFind h hFile
  have hIsName : ∀ name ∈ file, IsName name := fun name hName =>
    (hTree.allowed_of_node? hNode name (List.mem_append_right _ hName)).isName
  exact ⟨hNonempty, hIsName, bytes, mtimeNs, find_fileIn hTree hPlain hFind hNonempty hNode⟩

/-- The record of an image is that of a file below the directory of images, and is called by its path. -/
theorem exists_lies_of_mem_records {part : SplitLayout} {found : SplitSource} {item : SourceRecord}
    (hTree : tree.WellFormed) (hPlain : part.imagesDir.IsPlain)
    (h : split tree root part = .ok found) (hItem : item ∈ found.records) :
    ∃ place image, Lies tree part.imagesDir place image ∧
      hasExtension imageExtensions image = true ∧ item.imagePath = fileIn part.imagesDir image ∧
        item.image = root.relativeText item.imagePath := by
  obtain ⟨images, hListed, h⟩ := Except.exists_of_bind h
  obtain ⟨files, -, h⟩ := Except.exists_of_bind h
  obtain rfl := Except.ok.inj h
  obtain ⟨image, hImage, rfl⟩ := List.mem_map.mp hItem
  obtain ⟨place, hFind⟩ := exists_find_of_listFiles hListed
  exact ⟨place, image, lies_of_mem_listFiles hTree hPlain hFind hListed hImage,
    ((mem_listFiles_iff hFind hListed).mp hImage).2, rfl, rfl⟩

/-- What a table of labels holds under a stem is a file that it was made from. -/
theorem mem_of_labelTable {parts : List PathPart} (h : (labelTable files)[parts]? = some file) :
    file ∈ files ∧ stem file = parts := by
  induction files using List.reverseRecOn with
  | nil => simp [labelTable] at h
  | append_singleton files last ih =>
      rw [labelTable, List.foldl_append, List.foldl_cons, List.foldl_nil, ← labelTable,
        Std.TreeMap.getElem?_insert] at h
      split at h
      · rename_i hStem
        obtain rfl := Option.some.inj h
        exact ⟨by simp, Std.LawfulEqCmp.eq_of_compare hStem⟩
      · exact ⟨List.mem_append_left _ (ih h).1, (ih h).2⟩

theorem exists_find_of_listLabels (hTree : tree.WellFormed) (hPlain : directory.IsPlain)
    (h : listLabels tree directory = .ok files) (hFile : file ∈ files) :
    ∃ place, Lies tree directory place file ∧ hasExtension labelExtensions file = true := by
  unfold listLabels at h
  split at h
  · obtain ⟨place, hFind⟩ := exists_find_of_listFiles h
    exact ⟨place, lies_of_mem_listFiles hTree hPlain hFind h hFile,
      ((mem_listFiles_iff hFind h).mp hFile).2⟩
  · obtain rfl := Except.ok.inj h
    cases hFile

section Each

variable {ε α β : Type} {f g : α → Except ε β} {items : List α} {results : List β}

/-- A step succeeds on a list if it does so on each item. -/
theorem mapM_eq_ok_iff : items.mapM f = .ok results ↔
    List.Forall₂ (fun item b => f item = .ok b) items results := by
  induction items generalizing results with
  | nil =>
      rw [List.forall₂_nil_left_iff]
      exact ⟨fun h => (Except.ok.inj h).symm, fun h => h ▸ rfl⟩
  | cons item items ih =>
      rw [List.mapM_cons, List.forall₂_cons_left_iff]
      constructor
      · intro h
        obtain ⟨first, hFirst, h⟩ := Except.exists_of_bind h
        obtain ⟨rest, hRest, h⟩ := Except.exists_of_bind h
        exact ⟨first, rest, hFirst, ih.mp hRest, (Except.ok.inj h).symm⟩
      · rintro ⟨first, rest, hFirst, hRest, rfl⟩
        rw [hFirst]
        change (items.mapM f).bind _ = _
        rw [ih.mpr hRest]
        rfl

theorem exists_left_of_mem {R : α → β → Prop} (h : List.Forall₂ R items results) {b : β}
    (hMem : b ∈ results) : ∃ item ∈ items, R item b := by
  induction h with
  | nil => cases hMem
  | @cons item _ _ _ hFirst _ ih =>
      rcases List.mem_cons.mp hMem with rfl | hMem
      · exact ⟨item, List.mem_cons_self, hFirst⟩
      · obtain ⟨other, hOther, hFound⟩ := ih hMem
        exact ⟨other, List.mem_cons_of_mem _ hOther, hFound⟩

/-- What a step makes of a list comes from its items. -/
theorem exists_of_mem_mapM (h : items.mapM f = .ok results) {b : β} (hMem : b ∈ results) :
    ∃ item ∈ items, f item = .ok b :=
  exists_left_of_mem (mapM_eq_ok_iff.mp h) hMem

/-- A list of steps fails as one of them does. -/
theorem exists_of_mapM_eq_error {error : ε} (h : items.mapM f = .error error) :
    ∃ item ∈ items, f item = .error error := by
  induction items with
  | nil => cases h
  | cons item items ih =>
      rw [List.mapM_cons] at h
      obtain hItem | ⟨_, _, h⟩ := Except.bind_eq_error_iff.mp h
      · exact ⟨item, List.mem_cons_self, hItem⟩
      · obtain hRest | ⟨_, _, h⟩ := Except.bind_eq_error_iff.mp h
        · obtain ⟨other, hOther, hError⟩ := ih hRest
          exact ⟨other, List.mem_cons_of_mem _ hOther, hError⟩
        · cases h

/-- A step that gives the same wherever it succeeds gives the same items. -/
theorem mapM_eq_ok_of_eq_ok (hSame : ∀ item ∈ items, ∀ b, f item = .ok b → g item = .ok b)
    (h : items.mapM f = .ok results) : items.mapM g = .ok results := by
  have hEach := (List.forall₂_and_left items results).mpr ⟨hSame, mapM_eq_ok_iff.mp h⟩
  exact mapM_eq_ok_iff.mpr (hEach.imp fun _ b hBoth => hBoth.1 b hBoth.2)

theorem map_key_of_forall₂ {κ : Type} {key : α → κ} {key' : β → κ}
    (h : List.Forall₂ (fun item b => key' b = key item) items results) :
    results.map key' = items.map key := by
  rw [← List.forall₂_eq_eq_eq, List.forall₂_map_left_iff, List.forall₂_map_right_iff]
  exact h.flip

/-- A step that keeps the keys of items keeps those of a list. -/
theorem map_key_of_mapM {κ : Type} {key : α → κ} {key' : β → κ}
    (hKey : ∀ item b, f item = .ok b → key' b = key item) (h : items.mapM f = .ok results) :
    results.map key' = items.map key :=
  map_key_of_forall₂ ((mapM_eq_ok_iff.mp h).imp hKey)

end Each

/-- A scan walks the splits of a layout one by one, once the root has been opened. -/
theorem scan_eq_ok_iff {layout : Layout} {source : Source} : scan tree layout = .ok source ↔
    (∃ place, tree.find layout.root.text = .ok (place, .directory) ∧ tree.closed? place = none) ∧
      layout.splits.mapM (split tree layout.root) = .ok source.splits ∧
        source = ⟨layout.root, some layout.dataYaml, layout.classNames, source.splits⟩ := by
  simp only [← FileTree.openDirectory_eq_ok_iff]
  unfold scan
  cases hOpen : tree.openDirectory layout.root.text with
  | error _ => simp
  | ok place =>
      constructor
      · intro h
        obtain ⟨splits, hSplits, h⟩ := Except.exists_of_bind h
        obtain rfl := Except.ok.inj h
        exact ⟨⟨place, rfl⟩, hSplits, rfl⟩
      · rintro ⟨-, hSplits, hSource⟩
        change (layout.splits.mapM (split tree layout.root)).bind _ = _
        rw [hSplits, hSource]
        rfl

end Scan

end DatasetAudit
