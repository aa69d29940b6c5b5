import DatasetAudit.Artifact.Finding
import DatasetAudit.Proofs.Grouping
import DatasetAudit.Proofs.Json.Record

/-! Free values, which are kept as they are read. Objects with their names in order are in
canonical form, and no value of a finding or a label is nested deeply. -/

namespace DatasetAudit

namespace Json

variable {items : List Json} {members : List (String × Json)} {fields : List (String × Option Json)}
  {n : Nat}

mutual

/-- A text of its own stands for a value. -/
theorem hasValue_of_readable : ∀ {value : Json}, value.Readable → value.hasValue = true
  | .null, _ | .bool _, _ | .integer _, _ | .float _, _ | .string _, _ => rfl
  | .array _, h => itemsHaveValue_of_readable h
  | .object _, h => membersHaveValue_of_readable h

theorem itemsHaveValue_of_readable :
    ∀ {items : List Json}, ItemsReadable items → itemsHaveValue items = true
  | [], _ => rfl
  | _ :: _, h => Bool.and_eq_true_iff.mpr
      ⟨hasValue_of_readable h.1, itemsHaveValue_of_readable h.2⟩

theorem membersHaveValue_of_readable :
    ∀ {members : List (String × Json)}, MembersReadable members → membersHaveValue members = true
  | [], _ => rfl
  | _ :: _, h => Bool.and_eq_true_iff.mpr
      ⟨hasValue_of_readable h.1, membersHaveValue_of_readable h.2⟩

end

section Depth

theorem depth_array_le (h : ∀ item ∈ items, item.depth ≤ n) : (Json.array items).depth ≤ n + 1 := by
  have hItems : itemsDepth items ≤ n := by
    induction items with
    | nil => exact Nat.zero_le _
    | cons item items ih =>
        rw [List.forall_mem_cons] at h
        exact Nat.max_le.mpr ⟨h.1, ih h.2⟩
  exact Nat.succ_le_succ hItems

theorem depth_array_map_le {α : Type} {write : α → Json} {values : List α}
    (h : ∀ a ∈ values, (write a).depth ≤ n) : (Json.array (values.map write)).depth ≤ n + 1 :=
  depth_array_le (List.forall_mem_map.mpr h)

theorem depth_object_le (h : ∀ member ∈ members, member.2.depth ≤ n) :
    (Json.object members).depth ≤ n + 1 := by
  have hMembers : membersDepth members ≤ n := by
    induction members with
    | nil => exact Nat.zero_le _
    | cons member members ih =>
        rw [List.forall_mem_cons] at h
        exact Nat.max_le.mpr ⟨h.1, ih h.2⟩
  exact Nat.succ_le_succ hMembers

theorem depth_record_le (h : ∀ field ∈ fields, ∀ value ∈ field.2, value.depth ≤ n) :
    (record fields).depth ≤ n + 1 := by
  apply depth_object_le
  intro member hMember
  obtain ⟨⟨name, _⟩, hField, hValue⟩ := List.mem_filterMap.mp hMember
  obtain ⟨value, rfl, rfl⟩ := Option.map_eq_some_iff.mp hValue
  exact h _ hField value rfl

end Depth

section Canonical

theorem insertMember_last {name : String} {value : Json}
    (h : ∀ member ∈ members, compare member.1 name = .lt) :
    insertMember name value members = members ++ [(name, value)] := by
  induction members with
  | nil => rfl
  | cons member members ih =>
      rw [List.forall_mem_cons] at h
      rw [insertMember, Std.OrientedCmp.gt_of_lt h.1, ih h.2]
      rfl

/-- Members with their names in order are put in one behind the other. -/
theorem canonicalMembers_eq {sorted : List (String × Json)}
    (h : Ascending (·.1) (sorted ++ members))
    (hValues : ∀ member ∈ members, member.2.canonical = member.2) :
    canonicalMembers members sorted = sorted ++ members := by
  induction members generalizing sorted with
  | nil => rw [canonicalMembers, List.append_nil]
  | cons member members ih =>
      rw [List.forall_mem_cons] at hValues
      have hLast : insertMember member.1 member.2 sorted = sorted ++ [member] :=
        insertMember_last fun other hOther =>
          (List.pairwise_append.mp h).2.2 other hOther member List.mem_cons_self
      rw [canonicalMembers, hValues.1, hLast, ih (by simpa using h) hValues.2, List.append_assoc,
        List.singleton_append]

theorem canonicalItems_eq (h : ∀ item ∈ items, item.canonical = item) :
    canonicalItems items = items := by
  induction items with
  | nil => rfl
  | cons item items ih =>
      rw [List.forall_mem_cons] at h
      rw [canonicalItems, h.1, ih h.2]

end Canonical

section Figures

/-- A value that is neither an array nor an object and has a text of its own. -/
def Scalar : Json → Prop
  | .array _ | .object _ => False
  | value => value.Readable

/-- A scalar, or an array of scalars. -/
def Flat (value : Json) : Prop :=
  value.Scalar ∨ ∃ items, value = .array items ∧ ∀ item ∈ items, item.Scalar

/-- An object of scalars and arrays of scalars, with its names in order and each once. -/
def IsFigures (value : Json) : Prop :=
  ∃ members, value = .object members ∧ Ascending (·.1) members ∧ ∀ member ∈ members, member.2.Flat

variable {value : Json}

theorem Scalar.readable (h : value.Scalar) : value.Readable := by
  cases value <;> first | exact h | cases h

theorem Scalar.canonical_eq (h : value.Scalar) : value.canonical = value := by
  cases value <;> first | rfl | cases h

theorem Scalar.depth_eq (h : value.Scalar) : value.depth = 0 := by
  cases value <;> first | rfl | cases h

theorem Flat.readable (h : value.Flat) : value.Readable := by
  obtain hScalar | ⟨items, rfl, hItems⟩ := h
  · exact hScalar.readable
  · rw [Readable, itemsReadable_iff]
    exact fun item hItem => (hItems item hItem).readable

theorem Flat.canonical_eq (h : value.Flat) : value.canonical = value := by
  obtain hScalar | ⟨items, rfl, hItems⟩ := h
  · exact hScalar.canonical_eq
  · rw [canonical, canonicalItems_eq fun item hItem => (hItems item hItem).canonical_eq]

theorem Flat.depth_le (h : value.Flat) : value.depth ≤ 1 := by
  obtain hScalar | ⟨items, rfl, hItems⟩ := h
  · exact hScalar.depth_eq.le.trans zero_le_one
  · exact depth_array_le fun item hItem => (hItems item hItem).depth_eq.le

theorem restores_free (h : value.IsFigures) : Restores free? value value := by
  obtain ⟨members, rfl, hAscending, hFlat⟩ := h
  have hReadable : (Json.object members).Readable :=
    readable_object.mpr fun member hMember => (hFlat member hMember).readable
  have hDepth : (Json.object members).depth ≤ 2 :=
    depth_object_le fun member hMember => (hFlat member hMember).depth_le
  have hCanonical : (Json.object members).canonical = .object members := by
    rw [canonical, @canonicalMembers_eq members [] hAscending
      fun member hMember => (hFlat member hMember).canonical_eq, List.nil_append]
  refine ⟨hReadable, nofun, ?_⟩
  rw [free?, hasValue_of_readable hReadable, hCanonical]
  have hFree : (Json.object members).depth ≤ freeDepth := hDepth.trans (by decide)
  simp [hFree]

end Figures

end Json

end DatasetAudit
