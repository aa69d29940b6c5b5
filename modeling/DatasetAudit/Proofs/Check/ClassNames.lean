import DatasetAudit.Proofs.Check.ClassCounts
import DatasetAudit.Proofs.Index.Build
import DatasetAudit.Proofs.Scan.Files
import DatasetAudit.Proofs.Scan.Layout
import DatasetAudit.Proofs.Sorting

/-! The names of classes that a description gives by number. A layout keeps the names and not the
numbers: it has them in ascending order, and a class goes by its place among them. The numbers stay
what they are if they leave no gap, and then rows and findings go by the names of the description. -/

namespace DatasetAudit

/-- The findings of an index go by some names of classes: rows are flagged unless their class has a
name, and what is said about a class shows its name behind its number. -/
structure Index.GoesBy (index : Index) (Named : Nat → String → Prop) : Prop where
  flagged : ∀ entry ∈ index.entries, ∀ row ∈ entry.labels.rows,
    (Integrity.unknownClass entry index.classCount row ∈ Integrity.findings index ↔
      ¬∃ (id : Nat) (name : String), row.classId.toInt = id ∧ Named id name)
  shown : ∀ config, ∀ f ∈ ClassBalance.findings config index, f.id ≠ .classSplitDrift →
    ∃ id name rest, f.classId = some (Int64.ofNat id) ∧ Named id name ∧
      f.message = s!"Class {id} ({name})" ++ rest

namespace Layout

open Yaml (Value)

/-- A mapping of names has this name for the class. -/
def NamesClass (named : List (Value × Value)) (id : Nat) (name : String) : Prop :=
  ∃ key, (key, .string name) ∈ named ∧ nameIndex? key = some id

/-- Of the numbers below its length a mapping of names misses none. -/
def Gapless (named : List (Value × Value)) : Prop :=
  ∀ id < named.length, ∃ member ∈ named, nameIndex? member.1 = some id

/-- The names of a mapping with their numbers: ascending, and those of one number as they stand. -/
structure Numbers (named : List (Value × Value)) (numbered : List (Nat × String)) : Prop where
  ascending : numbered.Pairwise fun a b => a.1 ≤ b.1
  length : numbered.length = named.length
  members : ∀ id, (numbered.filter fun part => part.1 = id).map (fun part => .string part.2) =
    (named.filter fun member => nameIndex? member.1 = some id).map (·.2)

variable {named : List (Value × Value)} {numbered : List (Nat × String)} {names : List String}
  {id : Nat} {name : String}

theorem NamesClass.exists_member (h : NamesClass named id name) :
    ∃ member ∈ named, nameIndex? member.1 = some id := by
  obtain ⟨key, hMem, hKey⟩ := h
  exact ⟨_, hMem, hKey⟩

namespace Numbers

theorem mem_iff (h : Numbers named numbered) :
    (id, name) ∈ numbered ↔ NamesClass named id name := by
  have hNamed : .string name ∈ (named.filter fun member => nameIndex? member.1 = some id).map (·.2) ↔
      NamesClass named id name := by
    simp only [NamesClass, List.mem_map, List.mem_filter, decide_eq_true_eq]
    constructor
    · rintro ⟨⟨key, value⟩, ⟨hMem, hKey⟩, rfl⟩
      exact ⟨key, hMem, hKey⟩
    · rintro ⟨key, hMem, hKey⟩
      exact ⟨(key, .string name), ⟨hMem, hKey⟩, rfl⟩
  rw [← hNamed, ← h.members]
  simp

/-- The numbers of a mapping without gaps are the places of the names. -/
theorem map_fst_eq_range (h : Numbers named numbered) (hGapless : Gapless named) :
    numbered.map (·.1) = List.range numbered.length := by
  have hCovers : List.range numbered.length ⊆ numbered.map (·.1) := by
    intro id hId
    rw [List.mem_range, h.length] at hId
    obtain ⟨member, hMember, hKey⟩ := hGapless id hId
    have hValue : member.2 ∈
        (named.filter fun member => nameIndex? member.1 = some id).map (·.2) :=
      List.mem_map_of_mem (List.mem_filter.mpr ⟨hMember, decide_eq_true hKey⟩)
    rw [← h.members] at hValue
    obtain ⟨part, hPart, -⟩ := List.mem_map.mp hValue
    obtain ⟨hPart, hPartId⟩ := List.mem_filter.mp hPart
    exact List.mem_map.mpr ⟨part, hPart, of_decide_eq_true hPartId⟩
  -- There are no more places than numbers, so each number is there once.
  have hPerm : (List.range numbered.length).Perm (numbered.map (·.1)) :=
    (List.subperm_of_subset List.nodup_range hCovers).perm_of_length_le (by simp)
  have hAscending : (numbered.map (·.1)).Pairwise (· ≤ ·) := List.pairwise_map.mpr h.ascending
  exact (hPerm.eq_of_pairwise (fun _ _ _ _ => Nat.le_antisymm) List.pairwise_le_range
    hAscending).symm

/-- Names stand at their numbers exactly if the numbers have no gaps. -/
theorem getElem?_iff_namesClass (h : Numbers named numbered) :
    (∀ id name, (numbered.map (·.2))[id]? = some name ↔ NamesClass named id name) ↔
      Gapless named := by
  constructor
  · intro hPlaces id hId
    rw [← h.length, ← List.length_map (·.2)] at hId
    exact ((hPlaces id _).mp (List.getElem?_eq_getElem hId)).exists_member
  · intro hGapless id name
    have hPlaces := h.map_fst_eq_range hGapless
    have hPlace (i : Nat) (hi : i < numbered.length) : numbered[i].1 = i := by
      have hEq := congrArg (·[i]?) hPlaces
      simpa [hi] using hEq
    rw [← h.mem_iff, List.getElem?_map, Option.map_eq_some_iff]
    constructor
    · rintro ⟨part, hPart, rfl⟩
      obtain ⟨hi, rfl⟩ := List.getElem?_eq_some_iff.mp hPart
      have hMem := List.getElem_mem hi
      rwa [← Prod.mk.eta (p := numbered[id]), hPlace id hi] at hMem
    · intro hMem
      obtain ⟨i, hi, hPart⟩ := List.getElem_of_mem hMem
      have hId : i = id := by rw [← hPlace i hi, hPart]
      subst hId
      exact ⟨_, List.getElem?_eq_getElem hi, by rw [hPart]⟩

end Numbers

/-- Sorting by number leaves the names of one number in their order. -/
theorem filter_mergeSort_fst (indexed : List (Nat × String)) (id : Nat) :
    (indexed.mergeSort fun a b => a.1 ≤ b.1).filter (fun part => part.1 = id) =
      indexed.filter fun part => part.1 = id := by
  have hOrder : (fun a b : Nat × String => decide (a.1 ≤ b.1)) =
      fun a b => (compareOn (·.1) a b).isLE := by
    funext a b
    rw [Bool.eq_iff_iff, decide_eq_true_iff]
    exact Nat.isLE_compare.symm
  have hTies : SameTies (compareOn (·.1)) (indexed.mergeSort fun a b => a.1 ≤ b.1) indexed := by
    rw [hOrder]
    exact SameTies.sort indexed
  simpa only [compareOn, Nat.compare_eq_eq, eq_comm (a := id)] using hTies (id, "")

/-- A member of a mapping and the number and the name that are read from it. -/
def ReadsAs (member : Value × Value) (part : Nat × String) : Prop :=
  nameIndex? member.1 = some part.1 ∧ member.2 = .string part.2

theorem map_filter_of_readsAs {indexed : List (Nat × String)}
    (h : List.Forall₂ ReadsAs named indexed) (id : Nat) :
    (indexed.filter fun part => part.1 = id).map (fun part => .string part.2) =
      (named.filter fun member => nameIndex? member.1 = some id).map (·.2) := by
  induction h with
  | nil => rfl
  | cons hFirst _ ih =>
      simp only [List.filter_cons, hFirst.1, Option.some.injEq]
      split
      · rw [List.map_cons, List.map_cons, ih, hFirst.2]
      · exact ih

/-- The numbers of a mapping that is read are sorted together with its names. -/
theorem exists_numbers_of_namesOfMapping (h : namesOfMapping named = .ok names) :
    ∃ numbered, Numbers named numbered ∧ names = numbered.map (·.2) := by
  obtain ⟨indexed, hIndexed, h⟩ := Except.exists_of_bind h
  have hEach : List.Forall₂ ReadsAs named indexed := by
    refine (Scan.mapM_eq_ok_iff.mp hIndexed).imp fun ⟨key, value⟩ part hMember => ?_
    simp only at hMember
    split at hMember
    · cases hMember
    · rename_i hKey
      obtain rfl := Except.ok.inj hMember
      exact ⟨hKey, rfl⟩
    · cases hMember
  refine ⟨indexed.mergeSort fun a b => a.1 ≤ b.1, ⟨?_, ?_, fun id => ?_⟩, (Except.ok.inj h).symm⟩
  · refine (List.pairwise_mergeSort ?_ ?_ indexed).imp of_decide_eq_true
    · intro a b c
      simpa using Nat.le_trans
    · intro a b
      simpa using Nat.le_total a.1 b.1
  · rw [List.length_mergeSort, hEach.length_eq]
  · rw [filter_mergeSort_fst, map_filter_of_readsAs hEach]

section Parse

variable {dataYaml text : String} {requested : List Split} {layout : Layout}
  {members : List (Value × Value)}

theorem readNames_of_root {root : Path} (h : (do
      let classNames ← readNames (Value.lookup? "names" members)
      let splits ← (wantedSplits requested).filterMapM (splitLayout members root)
      if splits.isEmpty then .error LayoutFault.noSplits
      else .ok (Layout.mk dataYaml root classNames splits)) = .ok layout) :
    readNames (Value.lookup? "names" members) = .ok layout.classNames := by
  obtain ⟨classNames, hNames, h⟩ := Except.exists_of_bind h
  obtain ⟨splits, -, h⟩ := Except.exists_of_bind h
  split at h
  · cases h
  · obtain rfl := Except.ok.inj h
    exact hNames

/-- The names of a layout are read from its description. -/
theorem readNames_of_parse (hText : Value.ofText? text = some (.mapping members))
    (h : parse dataYaml text requested = .ok layout) :
    readNames (Value.lookup? "names" members) = .ok layout.classNames := by
  simp only [parse, hText, ofValue] at h
  split at h
  · exact readNames_of_root h
  · exact readNames_of_root h
  · cases h

/-- The names of a layout are those of a mapping, in ascending order of their numbers. -/
theorem exists_numbers_of_parse {named : List (Value × Value)}
    (hText : Value.ofText? text = some (.mapping members))
    (hNamed : Value.lookup? "names" members = some (.mapping named))
    (h : parse dataYaml text requested = .ok layout) :
    ∃ numbered, Numbers named numbered ∧ layout.classNames = numbered.map (·.2) := by
  have hNames := readNames_of_parse hText h
  rw [hNamed] at hNames
  exact exists_numbers_of_namesOfMapping hNames

end Parse

end Layout

section Findings

variable {index : Index} {config : ClassDistributionConfig} {c : Nat}

namespace Integrity

theorem isKnownClass_iff {classNames : List String} {classId : Int64} :
    isKnownClass classNames.length classId = true ↔
      ∃ (id : Nat) (name : String), classId.toInt = id ∧ classNames[id]? = some name := by
  simp only [isKnownClass, Bool.and_eq_true, decide_eq_true_eq]
  constructor
  · rintro ⟨hNonneg, hBelow⟩
    have hPlace : classId.toInt.toNat < classNames.length := by omega
    exact ⟨_, _, (Int.toNat_of_nonneg hNonneg).symm, List.getElem?_eq_getElem hPlace⟩
  · rintro ⟨id, name, hId, hName⟩
    obtain ⟨hPlace, -⟩ := List.getElem?_eq_some_iff.mp hName
    omega

/-- A row is flagged exactly if its class is unknown. -/
theorem unknownClass_mem_findings_iff {entry : IndexEntry} {row : AnnotationRow}
    (hEntry : entry ∈ index.entries) (hRow : row ∈ entry.labels.rows) :
    unknownClass entry index.classCount row ∈ findings index ↔
      isKnownClass index.classCount row.classId = false := by
  have hFiltered : unknownClass entry index.classCount row ∈ findings index ↔
      unknownClass entry index.classCount row ∈
        (findings index).filter fun f => f.id = .integrityInvalidClassId := by
    rw [List.mem_filter]
    exact (and_iff_left (decide_eq_true rfl)).symm
  rw [hFiltered, filter_unknownClass]
  simp only [List.mem_flatMap, List.mem_map, List.mem_filter, Bool.not_eq_true']
  constructor
  · rintro ⟨other, -, otherRow, ⟨-, hUnknown⟩, hSame⟩
    -- The finding holds the class of its row, so the two rows have one class.
    obtain hClass : otherRow.classId = row.classId :=
      Option.some.inj (congrArg Finding.classId hSame)
    rwa [← hClass]
  · exact fun hUnknown => ⟨entry, hEntry, row, ⟨hRow, hUnknown⟩, rfl⟩

end Integrity

namespace ClassBalance

theorem classText_of_getElem? {name : String} (h : index.classNames[c]? = some name) :
    classText index c = s!"{c} ({name})" := by
  rw [classText, h]

/-- What is said about a class is said about one of the counted classes. -/
theorem exists_class_of_mem_findings {f : Finding} (h : f ∈ findings config index)
    (hId : f.id ≠ .classSplitDrift) : ∃ c < index.classCount, f.classId = findingClass c ∧
      ∃ rest, f.message = s!"Class {classText index c}" ++ rest := by
  have hCounted : (Distribution.ofIndex index).total.counts.length = index.classCount :=
    ClassHistogram.length_counts_histogramOf _ _
  simp only [findings, List.mem_append] at h
  rcases h with (hImbalance | hRare) | hDrift
  · obtain ⟨⟨c, share⟩, hDominant, rfl⟩ :=
      Option.map_eq_some_iff.mp (Option.mem_toList.mp hImbalance)
    have hClass :=
      ClassHistogram.lt_length_of_dominant? (Option.filter_eq_some_iff.mp hDominant).1
    refine ⟨c, hCounted ▸ hClass, rfl,
      s!" holds {Decimal.fixedText 1 (share * 100)}% of all instances.", ?_⟩
    simp only [imbalance, Finding.ofCatalog, String.append_assoc]
  · obtain ⟨⟨c, count⟩, hMem, rfl⟩ := List.mem_map.mp hRare
    refine ⟨c, hCounted ▸ ClassHistogram.lt_length_of_mem_lowSupport hMem, rfl,
      s!" has {count.toNat} instances, below {config.minInstancesPerClassWarn.toNat}.", ?_⟩
    simp only [lowSupport, Finding.ofCatalog, String.append_assoc]
  · obtain ⟨target, -, hDrift⟩ := List.mem_filterMap.mp hDrift
    exact absurd (id_of_mem_drift? hDrift) hId

end ClassBalance

/-- Rows and findings go by the names that an index has, each name at its place. -/
theorem Index.goesBy_classNames (index : Index) :
    index.GoesBy fun id name => index.classNames[id]? = some name where
  flagged := by
    intro entry hEntry row hRow
    rw [Integrity.unknownClass_mem_findings_iff hEntry hRow, ← Bool.not_eq_true, classCount,
      Integrity.isKnownClass_iff]
  shown := by
    intro config f hFinding hId
    obtain ⟨c, hClass, hClassId, rest, hMessage⟩ :=
      ClassBalance.exists_class_of_mem_findings hFinding hId
    have hName := List.getElem?_eq_getElem hClass
    have hText (text : String) : toString text = text := rfl
    refine ⟨c, _, rest, hClassId, hName, ?_⟩
    rw [hMessage, ClassBalance.classText_of_getElem? hName]
    simp only [hText, String.append_assoc]

/-- An index has the class names of the layout that it was made for. -/
theorem Index.classNames_of_build {tree : FileTree} {layout : Layout} {source : Source}
    {files : FileView} {settings : Config} {options : IndexOptions} {decoder : Decoder}
    {cache : IndexCache} (hScan : scan tree layout = .ok source)
    (hBuild : build files source settings options decoder cache = .ok index) :
    index.classNames = layout.classNames := by
  obtain ⟨-, -, hSource⟩ := Scan.scan_eq_ok_iff.mp hScan
  obtain ⟨-, -, rfl⟩ := build_eq_ok_iff.mp hBuild
  rw [hSource, ofSource]

end Findings

namespace Layout

open Yaml (Value)

/-- The names of a mapping are listed in ascending order of their numbers. They stand at their
numbers exactly if the numbers have no gaps. Rows and findings go by the places in the list, and so by
the numbers of the mapping if those have no gaps. -/
theorem classNames_of_mapping {dataYaml text : String} {requested : List Split}
    {layout : Layout} {members named : List (Value × Value)}
    (hText : Value.ofText? text = some (.mapping members))
    (hNamed : Value.lookup? "names" members = some (.mapping named))
    (hParse : parse dataYaml text requested = .ok layout) :
    (∃ numbered, Numbers named numbered ∧ layout.classNames = numbered.map (·.2)) ∧
    ((∀ id name, layout.classNames[id]? = some name ↔ NamesClass named id name) ↔ Gapless named) ∧
    ∀ tree source files settings options decoder cache index,
      scan tree layout = .ok source →
        Index.build files source settings options decoder cache = .ok index →
          index.GoesBy (fun id name => layout.classNames[id]? = some name) ∧
            (Gapless named → index.GoesBy (NamesClass named)) := by
  obtain ⟨numbered, hNumbers, hNames⟩ := exists_numbers_of_parse hText hNamed hParse
  have hPlaces : (∀ id name, layout.classNames[id]? = some name ↔ NamesClass named id name) ↔
      Gapless named := by
    rw [hNames]
    exact hNumbers.getElem?_iff_namesClass
  refine ⟨⟨numbered, hNumbers, hNames⟩, hPlaces, ?_⟩
  intro tree source files settings options decoder cache index hScan hBuild
  have hGoes := index.goesBy_classNames
  rw [Index.classNames_of_build hScan hBuild] at hGoes
  refine ⟨hGoes, fun hGapless => ?_⟩
  have hSame : (fun id name => layout.classNames[id]? = some name) = NamesClass named := by
    funext id name
    exact propext (hPlaces.mpr hGapless id name)
  rwa [hSame] at hGoes

section Texts

variable {text name : String} {id : Nat} {named : List (Value × Value)}
  {parts : List (Option Nat × Option String)}

/-- The members of a mapping. -/
def members? : Value → Option (List (Value × Value))
  | .mapping members => some members
  | _ => none

/-- The text of a value that is one. -/
def text? : Value → Option String
  | .string text => some text
  | _ => none

/-- The numbers and the names that stand in the text of a description. -/
def numberedNames? (text : String) : Option (List (Option Nat × Option String)) := do
  let members ← members? (← Value.ofText? text)
  let named ← members? (← Value.lookup? "names" members)
  some (named.map fun member => (nameIndex? member.1, text? member.2))

theorem members?_eq_some {value : Value} {members : List (Value × Value)}
    (h : members? value = some members) : value = .mapping members := by
  cases value with
  | mapping _ => exact congrArg Value.mapping (Option.some.inj h)
  | _ => cases h

theorem text?_eq_some {value : Value} {text : String} (h : text? value = some text) :
    value = .string text := by
  cases value with
  | string _ => exact congrArg Value.string (Option.some.inj h)
  | _ => cases h

theorem exists_of_numberedNames? (h : numberedNames? text = some parts) : ∃ members named,
    Value.ofText? text = some (.mapping members) ∧
    Value.lookup? "names" members = some (.mapping named) ∧
    named.map (fun member => (nameIndex? member.1, text? member.2)) = parts := by
  obtain ⟨value, hText, h⟩ := Option.bind_eq_some_iff.mp h
  obtain ⟨members, hMembers, h⟩ := Option.bind_eq_some_iff.mp h
  obtain ⟨names, hNames, h⟩ := Option.bind_eq_some_iff.mp h
  obtain ⟨named, hNamed, h⟩ := Option.bind_eq_some_iff.mp h
  obtain rfl := members?_eq_some hMembers
  obtain rfl := members?_eq_some hNamed
  exact ⟨members, named, hText, hNames, Option.some.inj h⟩

theorem namesClass_iff_mem
    (h : named.map (fun member => (nameIndex? member.1, text? member.2)) = parts) :
    NamesClass named id name ↔ (some id, some name) ∈ parts := by
  rw [← h, List.mem_map]
  constructor
  · rintro ⟨key, hMem, hKey⟩
    exact ⟨_, hMem, by rw [hKey]; rfl⟩
  · rintro ⟨⟨key, value⟩, hMem, hPart⟩
    obtain ⟨hKey, hText⟩ := Prod.mk.inj hPart
    obtain rfl := text?_eq_some hText
    exact ⟨key, hMem, hKey⟩

end Texts

/-- Two names whose numbers start from one. -/
def offset : String := "train: t\nnames:\n  1: cat\n  2: dog\n"

/-- Where the numbers leave a gap, the names behind it move, and its last number is no class. -/
theorem offset_moves : ∃ members named layout, Value.ofText? offset = some (.mapping members) ∧
    Value.lookup? "names" members = some (.mapping named) ∧
    parse "/d/data.yaml" offset [] = .ok layout ∧
    NamesClass named 1 "cat" ∧ NamesClass named 2 "dog" ∧ (∀ name, ¬NamesClass named 0 name) ∧
    layout.classNames = ["cat", "dog"] ∧
    ((Integrity.entryFindings (.ofClasses .train "a.png" [0, 1, 2]) layout.classNames.length).filter
      fun f => f.id = .integrityInvalidClassId).map (·.classId) = [some 2] := by
  have hParts : numberedNames? offset =
      some [(some 1, some "cat"), (some 2, some "dog")] := by decide +kernel
  obtain ⟨members, named, hText, hNamed, hParts⟩ := exists_of_numberedNames? hParts
  have hOk : (parse "/d/data.yaml" offset []).toOption.isSome := by decide +kernel
  obtain ⟨layout, hParse⟩ := Option.isSome_iff_exists.mp hOk
  have hParse := Except.eq_ok_of_toOption hParse
  have hCat : NamesClass named 1 "cat" := (namesClass_iff_mem hParts).mpr (by decide)
  have hDog : NamesClass named 2 "dog" := (namesClass_iff_mem hParts).mpr (by decide)
  have hNames : layout.classNames = ["cat", "dog"] := by
    obtain ⟨numbered, hNumbers, hNames⟩ := exists_numbers_of_parse hText hNamed hParse
    have hLength : numbered.length = 2 := by
      rw [hNumbers.length, ← List.length_map, hParts]
      rfl
    obtain ⟨first, second, rfl⟩ := List.length_eq_two.mp hLength
    have hAscending : first.1 ≤ second.1 := by simpa using hNumbers.ascending
    have hCat := hNumbers.mem_iff.mpr hCat
    have hDog := hNumbers.mem_iff.mpr hDog
    simp only [List.mem_cons, List.not_mem_nil, or_false] at hCat hDog
    rcases hCat with rfl | rfl
    · obtain rfl := hDog.resolve_left (by decide)
      exact hNames
    · obtain rfl := hDog.resolve_right (by decide)
      exact absurd hAscending (by decide)
  refine ⟨members, named, layout, hText, hNamed, hParse, hCat, hDog, fun name hName => ?_, hNames,
    ?_⟩
  · have hMem := (namesClass_iff_mem hParts).mp hName
    simp at hMem
  · rw [Integrity.filter_entryFindings_unknownClass, hNames]
    decide

/-- Names in a mapping, not in the order of their numbers, one of which is given as text. -/
def shuffled : String := "train: t\nnames:\n  2: c\n  '0': a\n  1: b\n"

/-- An image for training and its labels. -/
def shelf : FileTree where
  nodes := Std.TreeMap.ofList
    [((["d"] : Location), FileNode.directory), (["d", "labels"], .directory),
      (["d", "labels", "a.txt"], .file [] 1), (["d", "t"], .directory),
      (["d", "t", "a.png"], .file [] 1)]

theorem shuffled_keeps : ∃ members named layout source index,
    Value.ofText? shuffled = some (.mapping members) ∧
    Value.lookup? "names" members = some (.mapping named) ∧
    parse "/d/data.yaml" shuffled [] = .ok layout ∧ Gapless named ∧
    layout.classNames = ["a", "b", "c"] ∧ scan shelf layout = .ok source ∧
    Index.build shelf.view source {} {} .header .empty = .ok index ∧
    index.GoesBy (NamesClass named) := by
  have hParts : numberedNames? shuffled =
      some [(some 2, some "c"), (some 0, some "a"), (some 1, some "b")] := by decide +kernel
  obtain ⟨members, named, hText, hNamed, hParts⟩ := exists_of_numberedNames? hParts
  have hFirst : NamesClass named 0 "a" := (namesClass_iff_mem hParts).mpr (by decide)
  have hSecond : NamesClass named 1 "b" := (namesClass_iff_mem hParts).mpr (by decide)
  have hThird : NamesClass named 2 "c" := (namesClass_iff_mem hParts).mpr (by decide)
  have hThree : named.length = 3 := by
    rw [← List.length_map, hParts]
    rfl
  have hGapless : Gapless named := by
    intro id hId
    rw [hThree] at hId
    interval_cases id
    · exact hFirst.exists_member
    · exact hSecond.exists_member
    · exact hThird.exists_member
  have hScanned : ((parse "/d/data.yaml" shuffled []).toOption.bind fun layout =>
      (scan shelf layout).toOption).isSome := by decide +kernel
  obtain ⟨source, hScanned⟩ := Option.isSome_iff_exists.mp hScanned
  obtain ⟨layout, hParse, hScan⟩ := Option.bind_eq_some_iff.mp hScanned
  have hParse := Except.eq_ok_of_toOption hParse
  have hScan := Except.eq_ok_of_toOption hScan
  obtain ⟨⟨place, hRoot, -⟩, -, hSource⟩ := Scan.scan_eq_ok_iff.mp hScan
  obtain ⟨index, hBuild⟩ : ∃ index,
      Index.build shelf.view source {} {} .header .empty = .ok index := by
    have hRoot : shelf.find source.root.text = .ok (place, .directory) := by
      rw [hSource]
      exact hRoot
    exact Index.exists_build_of_find hRoot rfl
  obtain ⟨⟨numbered, hNumbers, hNumbered⟩, hPlaces, hGoes⟩ :=
    classNames_of_mapping hText hNamed hParse
  have hNames : layout.classNames = ["a", "b", "c"] := by
    have hLength : layout.classNames.length = 3 := by
      rw [hNumbered, List.length_map, hNumbers.length, hThree]
    have hName {id : Nat} {name : String} (h : NamesClass named id name) :
        layout.classNames[id]? = some name := (hPlaces.mpr hGapless id name).mpr h
    obtain ⟨first, second, third, hNames⟩ := List.length_eq_three.mp hLength
    simp only [hNames] at hName
    obtain rfl := Option.some.inj (hName hFirst)
    obtain rfl := Option.some.inj (hName hSecond)
    obtain rfl := Option.some.inj (hName hThird)
    exact hNames
  exact ⟨members, named, layout, source, index, hText, hNamed, hParse, hGapless, hNames, hScan,
    hBuild, (hGoes _ _ _ _ _ _ _ _ hScan hBuild).2 hGapless⟩

end Layout

end DatasetAudit
