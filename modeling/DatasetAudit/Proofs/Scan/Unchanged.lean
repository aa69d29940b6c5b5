import DatasetAudit.Proofs.FileTree.Change
import DatasetAudit.Proofs.Grouping
import DatasetAudit.Proofs.Scan.Files
import DatasetAudit.Proofs.Scan.Layout

/-! What a scan does not see. Directories that are new, and files that are neither images nor labels,
change nothing in what is found of a dataset. -/

namespace DatasetAudit

namespace Scan

open FileTree (WellFormed Spares)
open DatasetAudit.Path (HasNames)

/-- None of the places may hold an image or labels. -/
def Unseen (written : List Location) : Prop :=
  ∀ place ∈ written, ∀ extensions ∈ [imageExtensions, labelExtensions],
    hasExtension extensions place = false

variable {tree later : FileTree} {written files : List Location} {place file : Location}
  {directory root : Path} {names extensions : List String} {part : SplitLayout}
  {found : SplitSource}

theorem hasExtension_append (place : Location) (h : hasExtension extensions file = true) :
    hasExtension extensions (place ++ file) = true := by
  have hNonempty : file ≠ [] := by
    rintro rfl
    cases h
  rw [hasExtension, List.getLast?_append_of_ne_nil _ hNonempty]
  exact h

theorem Unseen.notMem (h : Unseen written)
    (hExtensions : extensions ∈ [imageExtensions, labelExtensions])
    (hFile : hasExtension extensions file = true) (place : Location) : place ++ file ∉ written := by
  intro hMem
  have hSeen := h _ hMem extensions hExtensions
  rw [hasExtension_append place hFile] at hSeen
  cases hSeen

theorem isDirectory_eq_true_iff {path : String} :
    tree.isDirectory path = true ↔ ∃ place, tree.find path = .ok (place, .directory) := by
  unfold FileTree.isDirectory
  constructor
  · intro h
    split at h
    · exact ⟨_, ‹_›⟩
    · cases h
  · rintro ⟨place, hFind⟩
    rw [hFind]

/-- The entries of a tree that are listed below a place. -/
def Listed (place : Location) (extensions : List String) (entry : Location × FileNode) : Bool :=
  (FileTree.fileBelow? place entry).any (hasExtension extensions)

theorem filter_filesBelow (nodes : List (Location × FileNode)) :
    (nodes.filterMap (FileTree.fileBelow? place)).filter (hasExtension extensions) =
      (nodes.filter (Listed place extensions)).filterMap (FileTree.fileBelow? place) := by
  induction nodes with
  | nil => rfl
  | cons entry nodes ih =>
      cases hBelow : FileTree.fileBelow? place entry with
      | none => simp [hBelow, ih, Listed]
      | some file => cases hFile : hasExtension extensions file <;> simp [hBelow, hFile, ih, Listed]

section Lists

variable (hSpares : Spares written tree later) (hUnseen : Unseen written)
  (hExtensions : extensions ∈ [imageExtensions, labelExtensions])

include hSpares hUnseen hExtensions

/-- What is listed is an entry of both trees or of none. -/
theorem mem_toList_iff_of_listed {entry : Location × FileNode}
    (h : Listed place extensions entry = true) :
    entry ∈ later.nodes.toList ↔ entry ∈ tree.nodes.toList := by
  obtain ⟨other, node⟩ := entry
  rw [Listed, Option.any_eq_true] at h
  obtain ⟨file, hBelow, hFile⟩ := h
  obtain ⟨⟨bytes, mtimeNs, rfl⟩, rfl⟩ := fileBelow?_eq_some_iff.mp hBelow
  rw [Std.TreeMap.mem_toList_iff_getElem?_eq_some, Std.TreeMap.mem_toList_iff_getElem?_eq_some]
  exact hSpares.file _ (hUnseen.notMem hExtensions hFile place) bytes mtimeNs

/-- The same images or labels are listed. -/
theorem listFiles_eq (h : listFiles tree directory extensions = .ok files) :
    listFiles later directory extensions = .ok files := by
  obtain ⟨place, hFind, hStop, rfl⟩ := listFiles_eq_ok_iff.mp h
  have hAscending (nodes : Std.TreeMap Location FileNode) :
      Ascending Prod.fst (nodes.toList.filter (Listed place extensions)) :=
    List.Pairwise.filter _ Std.TreeMap.ordered_keys_toList
  have hFilter : later.nodes.toList.filter (Listed place extensions) =
      tree.nodes.toList.filter (Listed place extensions) := by
    apply (hAscending later.nodes).eq_of_mem_iff (hAscending tree.nodes)
    intro entry
    rw [List.mem_filter, List.mem_filter]
    exact and_congr_left (mem_toList_iff_of_listed hSpares hUnseen hExtensions)
  refine listFiles_eq_ok_iff.mpr ⟨place, hSpares.find_directory hFind,
    hSpares.stop?_eq_none (FileTree.find_eq_ok_iff.mp hFind).2 hStop, ?_⟩
  rw [filter_filesBelow, filter_filesBelow, hFilter]

end Lists

section Labels

variable (hTree : tree.WellFormed) (hSpares : Spares written tree later) (hUnseen : Unseen written)

include hTree hSpares hUnseen

/-- In a directory that was not there before, no labels are found. -/
theorem listFiles_eq_nil (hNames : directory.HasNames names)
    (hBefore : tree.isDirectory directory.text = false)
    (hFind : later.find directory.text = .ok (place, .directory)) :
    listFiles later directory labelExtensions = .ok [] := by
  obtain ⟨hLocate, hThere⟩ := FileTree.find_eq_ok_iff.mp hFind
  have hGone : tree.node? place ≠ some .directory := by
    intro hDirectory
    obtain rfl := FileTree.eq_of_locate_text hNames hLocate
    have hSome : directory.absolute = true ∨ names ≠ [] := by
      obtain ⟨hText, -⟩ := FileTree.locate_eq_ok hLocate
      rw [FileTree.text_toList hNames] at hText
      by_contra hNone
      rw [not_or, not_not] at hNone
      simp [hNone] at hText
    rw [hSpares.start] at hDirectory
    rw [← Bool.not_eq_true, isDirectory_eq_true_iff] at hBefore
    exact hBefore ⟨_, hTree.find_text hNames hSome hDirectory⟩
  -- What stood below the directory would have stood in it.
  have hNone : ∀ below node, below ≠ [] → tree.node? (place ++ below) ≠ some node :=
    fun below node hBelow hNode => hGone (hTree.above_of_node? hNode hBelow)
  have hStop : later.stop? place = none := by
    rw [FileTree.stop?_eq_none_iff hThere]
    intro below hBelow
    rw [hSpares.closed?_eq]
    by_contra hClosed
    have hNode := hSpares.opened _ hClosed hBelow
    by_cases hNil : below = []
    · subst hNil
      rw [List.append_nil] at hNode
      exact hGone hNode
    · exact hNone below _ hNil hNode
  obtain ⟨files, hFiles⟩ : ∃ files, listFiles later directory labelExtensions = .ok files :=
    ⟨_, listFiles_eq_ok_iff.mpr ⟨place, hFind, hStop, rfl⟩⟩
  rw [hFiles]
  congr 1
  rw [List.eq_nil_iff_forall_not_mem]
  intro file hFile
  obtain ⟨⟨bytes, mtimeNs, hNode⟩, hExtension⟩ := (mem_listFiles_iff hFind hFiles).mp hFile
  rw [hSpares.file _ (hUnseen.notMem (by simp) hExtension _)] at hNode
  have hNonempty : file ≠ [] := by
    rintro rfl
    cases hExtension
  rw [← FileTree.node?_eq_getElem? (List.append_ne_nil_of_right_ne_nil _ hNonempty)] at hNode
  exact hNone file _ hNonempty hNode

/-- The same label files are listed, also if there were none. -/
theorem listLabels_eq (hNames : directory.HasNames names)
    (h : listLabels tree directory = .ok files) : listLabels later directory = .ok files := by
  unfold listLabels at h ⊢
  cases hBefore : tree.isDirectory directory.text with
  | true =>
      obtain ⟨place, hFind⟩ := isDirectory_eq_true_iff.mp hBefore
      have hAfter := isDirectory_eq_true_iff.mpr ⟨place, hSpares.find_directory hFind⟩
      rw [if_pos hBefore] at h
      rw [if_pos hAfter, listFiles_eq hSpares hUnseen (by simp) h]
  | false =>
      rw [if_neg (by simp [hBefore])] at h
      obtain rfl := Except.ok.inj h
      split
      · rename_i hAfter
        obtain ⟨place, hFind⟩ := isDirectory_eq_true_iff.mp hAfter
        exact listFiles_eq_nil hTree hSpares hUnseen hNames hBefore hFind
      · rfl

end Labels

section Records

/-- A listed file is found as it was. -/
theorem Lies.find_eq (h : Lies tree directory place file) (hSpares : Spares written tree later)
    (hUnseen : Unseen written) (hExtensions : extensions ∈ [imageExtensions, labelExtensions])
    (hFile : hasExtension extensions file = true) :
    ∃ bytes mtimeNs,
      tree.find (fileIn directory file).text = .ok (place ++ file, .file bytes mtimeNs) ∧
      later.find (fileIn directory file).text = .ok (place ++ file, .file bytes mtimeNs) := by
  obtain ⟨bytes, mtimeNs, hFind⟩ := h.find
  exact ⟨bytes, mtimeNs, hFind, hSpares.find hFind (hUnseen.notMem hExtensions hFile place)⟩

variable (hTree : tree.WellFormed) (hSpares : Spares written tree later) (hUnseen : Unseen written)

include hTree hSpares hUnseen

theorem record_eq (hNames : part.labelsDir.HasNames names)
    (h : listLabels tree part.labelsDir = .ok files) (image : Location) :
    record later root part (labelTable files) image =
      record tree root part (labelTable files) image := by
  unfold record
  cases hLabel : (labelTable files)[stem image]? with
  | none => rfl
  | some file =>
      obtain ⟨place, hLies, hExtension⟩ :=
        exists_find_of_listLabels hTree hNames.isPlain h (mem_of_labelTable hLabel).1
      obtain ⟨bytes, mtimeNs, hBefore, hAfter⟩ := hLies.find_eq hSpares hUnseen (by simp) hExtension
      have hRead : later.read (fileIn part.labelsDir file).text =
          tree.read (fileIn part.labelsDir file).text := by
        rw [FileTree.read_of_find hBefore, FileTree.read_of_find hAfter, hSpares.closed?_eq]
      simp only [Option.map_some, Option.elim_some, readLabels, hRead]

/-- A split that was found is found again as it was. -/
theorem split_eq (hLabels : part.labelsDir.HasNames names)
    (h : split tree root part = .ok found) : split later root part = .ok found := by
  obtain ⟨images, hListed, h⟩ := Except.exists_of_bind h
  obtain ⟨files, hFiles, h⟩ := Except.exists_of_bind h
  have hRecords : record later root part (labelTable files) =
      record tree root part (labelTable files) :=
    funext fun image => record_eq hTree hSpares hUnseen hLabels hFiles image
  change (listFiles later part.imagesDir imageExtensions).bind _ = _
  rw [listFiles_eq hSpares hUnseen (by simp) hListed]
  change (listLabels later part.labelsDir).bind _ = _
  rw [listLabels_eq hTree hSpares hUnseen hLabels hFiles]
  simp only [Except.bind, hRecords]
  exact h

end Records

/-- A path leads to a file, and still does in a later tree. -/
def Keeps (tree later : FileTree) (path : String) : Prop :=
  ∃ place bytes mtimeNs, tree.find path = .ok (place, .file bytes mtimeNs) ∧
    later.find path = .ok (place, .file bytes mtimeNs)

/-- The image of every record is a file that is left alone. -/
theorem keeps_of_mem_records (hTree : tree.WellFormed) (hSpares : Spares written tree later)
    (hUnseen : Unseen written) (hImages : part.imagesDir.HasNames names)
    (h : split tree root part = .ok found) {item : SourceRecord} (hItem : item ∈ found.records) :
    Keeps tree later item.imagePath.text := by
  obtain ⟨place, image, hLies, hExtension, hPath, -⟩ :=
    exists_lies_of_mem_records hTree hImages.isPlain h hItem
  obtain ⟨bytes, mtimeNs, hBefore, hAfter⟩ := hLies.find_eq hSpares hUnseen (by simp) hExtension
  rw [hPath]
  exact ⟨_, bytes, mtimeNs, hBefore, hAfter⟩

end Scan

section Source

variable {tree later : FileTree} {written : List Location} {layout : Layout} {source : Source}

open FileTree (WellFormed Spares)
open Scan (Unseen Keeps)

variable (hTree : tree.WellFormed) (hSpares : Spares written tree later) (hUnseen : Unseen written)
  (hLayout : layout.Resolved)

include hTree hSpares hUnseen hLayout

/-- A dataset that was found is found again as it was, with its root and the files of its images. -/
theorem scan_eq (h : scan tree layout = .ok source) : scan later layout = .ok source ∧
    (∃ place, tree.find source.root.text = .ok (place, .directory) ∧
      later.find source.root.text = .ok (place, .directory)) ∧
    ∀ record ∈ source.records, Keeps tree later record.imagePath.text := by
  obtain ⟨⟨place, hRoot, hOpen⟩, hSplits, hSource⟩ := Scan.scan_eq_ok_iff.mp h
  have hLater := hSpares.find_directory hRoot
  have hSame : layout.splits.mapM (Scan.split later layout.root) = .ok source.splits := by
    refine Scan.mapM_eq_ok_of_eq_ok (fun part hPart found hFound => ?_) hSplits
    obtain ⟨_, hLabels⟩ := hLayout.labels part hPart
    exact Scan.split_eq hTree hSpares hUnseen hLabels hFound
  refine ⟨Scan.scan_eq_ok_iff.mpr ⟨⟨place, hLater, ?_⟩, hSame, hSource⟩, ⟨place, ?_, ?_⟩, ?_⟩
  · rw [hSpares.closed?_eq, hOpen]
  · exact hSource ▸ hRoot
  · exact hSource ▸ hLater
  · intro record hRecord
    obtain ⟨found, hFound, hRecord⟩ := List.mem_flatMap.mp hRecord
    obtain ⟨part, hPart, hSplit⟩ := Scan.exists_of_mem_mapM hSplits hFound
    obtain ⟨_, hImages⟩ := hLayout.images part hPart
    exact Scan.keeps_of_mem_records hTree hSpares hUnseen hImages hSplit hRecord

end Source

end DatasetAudit
