import DatasetAudit.FileTree.Change
import DatasetAudit.Proofs.Except
import DatasetAudit.Proofs.Path.Text
import DatasetAudit.Proofs.Text.Basic
import Mathlib.Data.List.Induction

/-! Where paths lead in a tree. Every step of a path starts from a directory, so what stands in a
well-formed tree is reached by the names on the way to it. -/

namespace DatasetAudit

namespace FileTree

open DatasetAudit.Path (IsName HasNames)

/-- A name that a file or a directory may have. -/
structure Allowed (name : String) : Prop where
  isName : IsName name
  noNul : '\x00' ∉ name.toList
  short : name.utf8ByteSize ≤ nameLimit

instance (name : String) : Decidable (Allowed name) :=
  decidable_of_iff (IsName name ∧ '\x00' ∉ name.toList ∧ name.utf8ByteSize ≤ nameLimit)
    ⟨fun ⟨isName, noNul, short⟩ => ⟨isName, noNul, short⟩, fun h => ⟨h.isName, h.noNul, h.short⟩⟩

/-- Above every file and every directory stands a directory, and all of them have names. -/
structure WellFormed (tree : FileTree) : Prop where
  above : ∀ place name, place ++ [name] ∈ tree.nodes → tree.node? place = some .directory
  allowed : ∀ place ∈ tree.nodes, ∀ name ∈ place, Allowed name
  root : [] ∉ tree.nodes

variable {tree later : FileTree} {place upper target : Location} {node : FileNode} {part : PathPart}
  {parts : List PathPart} {name path : String} {names : List String}

section Nodes

theorem node?_eq_getElem? (h : place ≠ []) : tree.node? place = tree.nodes[place]? := by
  cases place with
  | nil => exact absurd rfl h
  | cons _ _ => rfl

/-- Only files and directories below the root are nodes of their own. -/
theorem mem_nodes_of_node? (h : tree.node? place = some node) (hPlace : place ≠ []) :
    place ∈ tree.nodes := by
  rw [Std.TreeMap.mem_iff_isSome_getElem?, ← node?_eq_getElem? hPlace, h]
  rfl

theorem ne_nil_of_file {bytes : List UInt8} {mtimeNs : Int}
    (h : tree.node? place = some (.file bytes mtimeNs)) : place ≠ [] := by
  rintro rfl
  cases h

theorem WellFormed.allowed_of_node? (h : tree.WellFormed) (hNode : tree.node? place = some node) :
    ∀ name ∈ place, Allowed name := by
  intro name hName
  have hPlace : place ≠ [] := List.ne_nil_of_mem hName
  exact h.allowed place (mem_nodes_of_node? hNode hPlace) name hName

/-- The places on the way to a node are directories. -/
theorem WellFormed.above_of_node? (h : tree.WellFormed)
    (hNode : tree.node? (place ++ names) = some node) (hNames : names ≠ []) :
    tree.node? place = some .directory := by
  induction names using List.reverseRecOn generalizing node with
  | nil => exact absurd rfl hNames
  | append_singleton names last ih =>
      rw [← List.append_assoc] at hNode
      have hUpper := h.above (place ++ names) last
        (mem_nodes_of_node? hNode (List.append_ne_nil_of_right_ne_nil _ (List.cons_ne_nil _ _)))
      by_cases hEmpty : names = []
      · rwa [hEmpty, List.append_nil] at hUpper
      · exact ih hUpper hEmpty

/-- Whether a tree is well-formed shows in the list of its nodes. -/
theorem wellFormed_of_toList (h : ∀ entry ∈ tree.nodes.toList, entry.1 ≠ [] ∧
    tree.node? entry.1.dropLast = some .directory ∧ ∀ name ∈ entry.1, Allowed name) :
    tree.WellFormed := by
  have hNode {place : Location} (hPlace : place ∈ tree.nodes) : place ≠ [] ∧
      tree.node? place.dropLast = some .directory ∧ ∀ name ∈ place, Allowed name := by
    obtain ⟨node, hNode⟩ := Option.isSome_iff_exists.mp
      (Std.TreeMap.mem_iff_isSome_getElem?.mp hPlace)
    exact h (place, node) (Std.TreeMap.mem_toList_iff_getElem?_eq_some.mpr hNode)
  refine ⟨fun place name hPlace => ?_, fun place hPlace => (hNode hPlace).2.2,
    fun hRoot => (hNode hRoot).1 rfl⟩
  have hUpper := (hNode hPlace).2.1
  rwa [List.dropLast_concat] at hUpper

end Nodes

section Steps

/-- Where a part leads from a directory. -/
def landing (place : Location) : PathPart → Location
  | .current => place
  | .up => place.dropLast
  | .name name => place ++ [name]

/-- A step is taken from a directory, and not to a name that is too long. -/
theorem step_eq_ok_iff : tree.step place part = .ok target ↔
    tree.node? place = some .directory ∧ target = landing place part ∧
      ∀ name, part = .name name → name.utf8ByteSize ≤ nameLimit := by
  unfold step
  cases hNode : tree.node? place with
  | none => simp
  | some node =>
      cases node with
      | file _ _ => simp
      | directory =>
          cases part with
          | current => simp [landing, eq_comm]
          | up => simp [landing, eq_comm]
          | name name =>
              by_cases hShort : nameLimit < name.utf8ByteSize
              · simp [hShort]
              · simp [hShort, landing, eq_comm, Nat.le_of_not_lt hShort]

theorem follow_append (tree : FileTree) (place : Location) (parts more : List PathPart) :
    tree.follow place (parts ++ more) =
      (tree.follow place parts).bind fun target => tree.follow target more :=
  List.foldlM_append

theorem follow_append_name : tree.follow place (parts ++ [.name name]) = .ok target ↔
    ∃ upper, tree.follow place parts = .ok upper ∧ tree.node? upper = some .directory ∧
      name.utf8ByteSize ≤ nameLimit ∧ target = upper ++ [name] := by
  have hStep (upper : Location) : tree.follow upper [.name name] = .ok target ↔
      tree.node? upper = some .directory ∧ name.utf8ByteSize ≤ nameLimit ∧
        target = upper ++ [name] := by
    simp only [follow, List.foldlM_cons, List.foldlM_nil, bind_pure, step_eq_ok_iff]
    simp [landing, and_comm]
  rw [follow_append]
  constructor
  · intro h
    obtain ⟨upper, hUpper, hName⟩ := Except.exists_of_bind h
    exact ⟨upper, hUpper, (hStep upper).mp hName⟩
  · rintro ⟨upper, hUpper, hName⟩
    rw [hUpper]
    exact (hStep upper).mpr hName

/-- Names lead to the place that they name. -/
theorem eq_append_of_follow (h : tree.follow place (names.map .name) = .ok target) :
    target = place ++ names := by
  induction names using List.reverseRecOn generalizing target with
  | nil => simpa [follow] using (Except.ok.inj h).symm
  | append_singleton names last ih =>
      rw [List.map_append, List.map_singleton, follow_append_name] at h
      obtain ⟨upper, hUpper, -, -, rfl⟩ := h
      rw [ih hUpper, List.append_assoc]

/-- The names on the way to a node lead there. -/
theorem WellFormed.follow_names (h : tree.WellFormed)
    (hNode : tree.node? (place ++ names) = some node) :
    tree.follow place (names.map .name) = .ok (place ++ names) := by
  induction names using List.reverseRecOn generalizing node with
  | nil =>
      rw [List.append_nil]
      rfl
  | append_singleton names last ih =>
      rw [List.map_append, List.map_singleton, follow_append_name, ← List.append_assoc]
      rw [← List.append_assoc] at hNode
      have hUpper := h.above_of_node? hNode (List.cons_ne_nil _ _)
      have hLast := h.allowed_of_node? hNode last (by simp)
      exact ⟨place ++ names, ih hUpper, hUpper, hLast.short, rfl⟩

end Steps

section Locate

/-- What a text leads to is what its path leads to. -/
theorem locate_eq_ok (h : tree.locate path = .ok place) :
    path.toList ≠ [] ∧ '\x00' ∉ path.toList ∧
      tree.follow (tree.start (Path.ofString path)) (Path.ofString path).parts = .ok place ∧
      (isDirectoryPath path = true → tree.node? place = some .directory) := by
  unfold locate at h
  split at h
  · cases h
  · rename_i hEmpty
    split at h
    · cases h
    · rename_i hNul
      obtain ⟨target, hFollow, hEnd⟩ := Except.exists_of_bind h
      have hTarget : target = place ∧
          (isDirectoryPath path = true → tree.node? place = some .directory) := by
        split at hEnd
        · unfold directoryAt at hEnd
          split at hEnd
          · cases hEnd
          · cases hEnd
          · rename_i hNode
            cases hEnd
            exact ⟨rfl, fun _ => hNode⟩
        · rename_i hPath
          cases hEnd
          exact ⟨rfl, fun hDirectory => absurd hDirectory hPath⟩
      obtain ⟨rfl, hDirectory⟩ := hTarget
      refine ⟨?_, by simpa using hNul, hFollow, hDirectory⟩
      rwa [String.isEmpty_iff, ← String.toList_eq_nil_iff] at hEmpty

theorem locate_of_follow (hEmpty : path.toList ≠ []) (hNul : '\x00' ∉ path.toList)
    (hFollow : tree.follow (tree.start (Path.ofString path)) (Path.ofString path).parts = .ok place)
    (hDirectory : isDirectoryPath path = true → tree.node? place = some .directory) :
    tree.locate path = .ok place := by
  have hNonempty : path.isEmpty = false := by
    rwa [← Bool.not_eq_true, String.isEmpty_iff, ← String.toList_eq_nil_iff]
  have hNoNul : path.toList.contains '\x00' = false := by simpa using hNul
  rw [locate, hNonempty, hNoNul]
  simp only [Bool.false_eq_true, if_false]
  change (tree.follow _ _).bind _ = _
  rw [hFollow]
  change (if isDirectoryPath path = true then tree.directoryAt place else .ok place) = .ok place
  split
  · rename_i hPath
    rw [directoryAt, hDirectory hPath]
  · rfl

theorem find_eq_ok_iff : tree.find path = .ok (place, node) ↔
    tree.locate path = .ok place ∧ tree.node? place = some node := by
  constructor
  · intro h
    obtain ⟨target, hLocate, hNode⟩ := Except.exists_of_bind h
    split at hNode
    · rename_i found hFound
      cases hNode
      exact ⟨hLocate, hFound⟩
    · cases hNode
  · rintro ⟨hLocate, hNode⟩
    change (tree.locate path).bind _ = _
    rw [hLocate]
    simp only [Except.bind, hNode]

/-- A directory is opened if a path leads to it and its names are given. -/
theorem openDirectory_eq_ok_iff : tree.openDirectory path = .ok place ↔
    tree.find path = .ok (place, .directory) ∧ tree.closed? place = none := by
  rw [find_eq_ok_iff]
  constructor
  · intro h
    obtain ⟨target, hLocate, h⟩ := Except.exists_of_bind h
    obtain ⟨found, hFound, h⟩ := Except.exists_of_bind h
    unfold directoryAt at hFound
    split at hFound
    · cases hFound
    · cases hFound
    · rename_i hNode
      cases hFound
      split at h
      · cases h
      · rename_i hOpen
        cases h
        exact ⟨⟨hLocate, hNode⟩, hOpen⟩
  · rintro ⟨⟨hLocate, hNode⟩, hOpen⟩
    change (tree.locate path).bind _ = _
    rw [hLocate]
    change (tree.directoryAt place).bind _ = _
    simp only [directoryAt, hNode, Except.bind, hOpen]

/-- What reading comes to where a path leads to a file. -/
theorem read_of_find {bytes : List UInt8} {mtimeNs : Int}
    (h : tree.find path = .ok (place, .file bytes mtimeNs)) :
    tree.read path = (tree.closed? place).elim (.ok bytes) .error := by
  change (tree.find path).bind _ = _
  rw [h]
  cases hClosed : tree.closed? place <;> simp only [Except.bind, hClosed, Option.elim]

theorem read_eq_ok_iff {bytes : List UInt8} : tree.read path = .ok bytes ↔
    ∃ place mtimeNs, tree.find path = .ok (place, .file bytes mtimeNs) ∧
      tree.closed? place = none := by
  constructor
  · intro h
    obtain ⟨⟨place, node⟩, hFind, hBytes⟩ := Except.exists_of_bind h
    simp only at hBytes
    split at hBytes
    · cases hBytes
    · rename_i hOpen
      cases hBytes
      exact ⟨place, _, hFind, hOpen⟩
    · cases hBytes
  · rintro ⟨place, mtimeNs, hFind, hOpen⟩
    rw [read_of_find hFind, hOpen]
    rfl

/-- A walk over a directory goes to its end if neither that nor a directory below it is closed. -/
theorem stop?_eq_none_iff (h : tree.node? place = some .directory) : tree.stop? place = none ↔
    ∀ below, tree.node? (place ++ below) = some .directory → tree.closed? (place ++ below) = none := by
  constructor
  · intro hStop below hBelow
    unfold stop? at hStop
    split at hStop
    · cases hStop
    · rename_i hOpen
      by_cases hNonempty : place ++ below = []
      · obtain ⟨rfl, rfl⟩ := List.append_eq_nil_iff.mp hNonempty
        exact hOpen
      · rw [node?_eq_getElem? hNonempty, ← Std.TreeMap.mem_toList_iff_getElem?_eq_some] at hBelow
        have hEntry := List.findSome?_eq_none_iff.mp hStop _ hBelow
        simpa [closedBelow?] using hEntry
  · intro hOpen
    have hPlace : tree.closed? place = none := by simpa [h] using hOpen []
    simp only [stop?, hPlace]
    rw [List.findSome?_eq_none_iff]
    rintro ⟨other, node⟩ hEntry
    rw [Std.TreeMap.mem_toList_iff_getElem?_eq_some] at hEntry
    cases node with
    | file bytes mtimeNs => rfl
    | directory =>
        rw [closedBelow?]
        split
        · rename_i hPrefix
          obtain ⟨below, rfl⟩ := List.isPrefixOf_iff_prefix.mp hPrefix
          have hNode : tree.node? (place ++ below) = some .directory := by
            by_cases hNonempty : place ++ below = []
            · rw [hNonempty]
              rfl
            · rw [node?_eq_getElem? hNonempty, hEntry]
          rw [hOpen below hNode, Option.map_none]
        · rfl

/-- A text that ends with a name may stand for a file. -/
theorem isDirectoryPath_of_name (h : IsName name) {front : List Char}
    (hPath : path.toList = front ++ name.toList) : isDirectoryPath path = false := by
  have hReverse : path.toList.reverse = name.toList.reverse ++ front.reverse := by
    rw [hPath, List.reverse_append]
  have hSlash : '/' ∉ name.toList.reverse := by simpa using h.slash
  have hName : name.toList.reverse ≠ [] ∧ name.toList.reverse ≠ ['.'] := by
    refine ⟨by simpa using h.nonempty, fun hDot => h.current ?_⟩
    rw [← String.toList_inj, ← List.reverse_inj, hDot]
    rfl
  rw [isDirectoryPath, hReverse]
  generalize name.toList.reverse = letters at hSlash hName
  obtain ⟨hNonempty, hDot⟩ := hName
  split
  all_goals
    rename_i hLetters
    match letters with
    | [] => exact absurd rfl hNonempty
    | [c] => simp_all
    | c :: d :: more => simp_all

end Locate

section Texts

variable {directory : Path} {file : Location}

theorem text_toList (h : HasNames directory names) : directory.text.toList =
    (if directory.absolute then ['/'] else []) ++ ['/'].intercalate (names.map String.toList) := by
  rw [Path.text, h.parts, Path.map_text_names]
  split <;> simp

theorem noNul_text (h : HasNames directory names) (hNul : ∀ name ∈ names, '\x00' ∉ name.toList) :
    '\x00' ∉ directory.text.toList := by
  have hNames : '\x00' ∉ ['/'].intercalate (names.map String.toList) := by
    apply Text.notMem_intercalate (by decide)
    rwa [List.forall_mem_map]
  rw [text_toList h, List.mem_append, not_or]
  exact ⟨by split <;> decide, hNames⟩

/-- The text of a path ends with its last name. -/
theorem exists_front_of_text {last : String} (h : HasNames directory (names ++ [last])) :
    ∃ front, directory.text.toList = front ++ last.toList := by
  have hJoined (texts : List (List Char)) :
      ∃ front, ['/'].intercalate (texts ++ [last.toList]) = front ++ last.toList := by
    induction texts with
    | nil => exact ⟨[], by simp⟩
    | cons text texts ih =>
        obtain ⟨front, hFront⟩ := ih
        refine ⟨text ++ ['/'] ++ front, ?_⟩
        cases texts with
        | nil => simp_all
        | cons next texts =>
            rw [List.append_assoc, ← hFront]
            simp
  obtain ⟨front, hFront⟩ := hJoined (names.map String.toList)
  rw [text_toList h, List.map_append, List.map_singleton, hFront, ← List.append_assoc]
  exact ⟨_, rfl⟩

/-- The text of a path is empty only for the relative path without names. -/
theorem text_ne_nil (h : HasNames directory names)
    (hSome : directory.absolute = true ∨ names ≠ []) : directory.text.toList ≠ [] := by
  rcases List.eq_nil_or_concat names with rfl | ⟨front, last, rfl⟩
  · have hAbsolute := hSome.resolve_right fun hNames => hNames rfl
    simp [text_toList h, hAbsolute]
  · rw [List.concat_eq_append] at h
    obtain ⟨before, hBefore⟩ := exists_front_of_text h
    rw [hBefore]
    exact List.append_ne_nil_of_right_ne_nil _ (h.isName last (by simp)).nonempty

/-- The text of a path can only stand for a directory if the path has no names. -/
theorem eq_nil_of_isDirectoryPath (h : HasNames directory names)
    (hDirectory : isDirectoryPath directory.text = true) : names = [] := by
  rcases List.eq_nil_or_concat names with rfl | ⟨front, last, rfl⟩
  · rfl
  · rw [List.concat_eq_append] at h
    obtain ⟨before, hBefore⟩ := exists_front_of_text h
    rw [isDirectoryPath_of_name (h.isName last (by simp)) hBefore] at hDirectory
    cases hDirectory

/-- A path of names leads to the place that it names. -/
theorem eq_of_locate_text (h : HasNames directory names)
    (hLocate : tree.locate directory.text = .ok place) : place = tree.start directory ++ names := by
  obtain ⟨-, -, hFollow, -⟩ := locate_eq_ok hLocate
  rw [Path.ofString_text h, h.parts] at hFollow
  exact eq_append_of_follow hFollow

/-- What stands in a well-formed tree is found under the names on the way to it. -/
theorem WellFormed.find_text (hTree : tree.WellFormed) (h : HasNames directory names)
    (hSome : directory.absolute = true ∨ names ≠ [])
    (hNode : tree.node? (tree.start directory ++ names) = some node) :
    tree.find directory.text = .ok (tree.start directory ++ names, node) := by
  have hNul : '\x00' ∉ directory.text.toList := noNul_text h fun name hName =>
    (hTree.allowed_of_node? hNode name (List.mem_append_right _ hName)).noNul
  have hFollow : tree.follow (tree.start (Path.ofString directory.text))
      (Path.ofString directory.text).parts = .ok (tree.start directory ++ names) := by
    rw [Path.ofString_text h, h.parts]
    exact hTree.follow_names hNode
  refine find_eq_ok_iff.mpr ⟨locate_of_follow (text_ne_nil h hSome) hNul hFollow ?_, hNode⟩
  intro hDirectory
  obtain rfl := eq_nil_of_isDirectoryPath h hDirectory
  have hAbsolute : directory.absolute = true := hSome.resolve_right fun hNames => hNames rfl
  rw [start, if_pos hAbsolute]
  rfl

end Texts

end FileTree

end DatasetAudit
