import DatasetAudit.Artifact.Index
import DatasetAudit.Proofs.Artifact.Finding

/-! An index is restored from its JSON value, if its coordinates are finite and its counts fit into
sixty-four bits. -/

namespace DatasetAudit

open Json

/-- Whether the coordinates of an annotation are finite. -/
structure AnnotationRow.IsFinite (row : AnnotationRow) : Prop where
  xCenter : row.box.xCenter.isFinite = true
  yCenter : row.box.yCenter.isFinite = true
  width : row.box.width.isFinite = true
  height : row.box.height.isFinite = true
  polygon : ∀ corners ∈ row.polygon, ∀ x ∈ corners, x.isFinite = true

instance (row : AnnotationRow) : Decidable row.IsFinite :=
  decidable_of_iff (row.box.xCenter.isFinite = true ∧ row.box.yCenter.isFinite = true ∧
    row.box.width.isFinite = true ∧ row.box.height.isFinite = true ∧
      ∀ corners ∈ row.polygon, ∀ x ∈ corners, x.isFinite = true)
    ⟨fun ⟨hX, hY, hWidth, hHeight, hPolygon⟩ => ⟨hX, hY, hWidth, hHeight, hPolygon⟩,
      fun ⟨hX, hY, hWidth, hHeight, hPolygon⟩ => ⟨hX, hY, hWidth, hHeight, hPolygon⟩⟩

theorem AnnotationRow.restores {row : AnnotationRow} (h : row.IsFinite) :
    Restores ofJson? row.toJson row := by
  refine restores_record rfl (by decide) ?_
  apply Builds.required (restores_uint32 row.line)
  apply Builds.required (restores_int64 row.classId)
  apply Builds.required (restores_float h.xCenter)
  apply Builds.required (restores_float h.yCenter)
  apply Builds.required (restores_float h.width)
  apply Builds.required (restores_float h.height)
  apply Builds.optional fun corners hCorners =>
    restores_array fun x hx => restores_float (h.polygon corners hCorners x hx)
  exact .nil

theorem RowError.restores (error : RowError) : Restores ofJson? error.toJson error := by
  refine restores_object rfl (by decide) ?_
  apply Builds.required (restores_uint32 error.line)
  apply Builds.required (restores_string error.raw)
  apply Builds.required (restores_string error.reason)
  exact .nil

theorem AnnotationRow.depth_toJson_le (row : AnnotationRow) : row.toJson.depth ≤ 2 := by
  have hCorners : ∀ value ∈ row.polygon.map fun corners => Json.array (corners.map .float),
      value.depth ≤ 1 := by
    intro value hValue
    obtain ⟨corners, -, rfl⟩ := Option.map_eq_some_iff.mp hValue
    exact depth_array_map_le fun _ _ => le_rfl
  apply depth_record_le
  simp only [List.forall_mem_cons, Option.mem_def, Option.some.injEq, forall_eq']
  exact ⟨Nat.zero_le _, Nat.zero_le _, Nat.zero_le _, Nat.zero_le _, Nat.zero_le _, Nat.zero_le _,
    hCorners, nofun⟩

theorem RowError.depth_toJson_le (error : RowError) : error.toJson.depth ≤ 2 :=
  depth_object_le (n := 1) (by simp [ofNat, depth])

namespace LabelState

/-- Whether the coordinates of all rows are finite. -/
def IsFinite (state : LabelState) : Prop :=
  ∀ row ∈ state.rows, row.IsFinite

instance (state : LabelState) : Decidable state.IsFinite :=
  inferInstanceAs (Decidable (∀ row ∈ state.rows, row.IsFinite))

variable {state : LabelState}

theorem depth_toJson_le (state : LabelState) : state.toJson.depth ≤ freeDepth := by
  have hDepth : state.toJson.depth ≤ 4 := by
    cases state with
    | parsed rows errors =>
        have hRows : (Json.array (rows.map AnnotationRow.toJson)).depth ≤ 3 :=
          depth_array_map_le fun row _ => row.depth_toJson_le
        have hErrors : (Json.array (errors.map RowError.toJson)).depth ≤ 3 :=
          depth_array_map_le fun error _ => error.depth_toJson_le
        apply depth_object_le
        simp only [List.forall_mem_cons]
        exact ⟨Nat.zero_le _, hRows, hErrors, nofun⟩
    | _ => exact depth_object_le (n := 3) (by simp [depth])
  exact hDepth.trans (by decide)

/-- The name of a state stands before its fields. -/
theorem splitName?_cons {name : String} {members : List (String × Json)}
    (h : ∀ member ∈ members, member.1 ≠ "state") :
    splitName? (.object (("state", .string name) :: members)) = some (name, .object members) := by
  have hOthers : (members.filter fun member => member.1 == "state") = [] := by
    rw [List.filter_eq_nil_iff]
    intro member hMember
    simpa using h member hMember
  have hFields : (members.filter fun member => member.1 != "state") = members := by
    rw [List.filter_eq_self]
    intro member hMember
    simpa using h member hMember
  simp [splitName?, hOthers, hFields]

/-- A state is written as its name and members from which it is restored. -/
theorem exists_members (h : state.IsFinite) : ∃ name members,
    state.toJson = .object (("state", .string name) :: members) ∧
      (∀ member ∈ members, member.1 ≠ "state") ∧
        Restores (ofFields? name) (.object members) state := by
  cases state with
  | missing => exact ⟨"missing", [], rfl, nofun, trivial, nofun, rfl⟩
  | parsed rows errors =>
      refine ⟨"parsed", _, rfl, by simp, ?_⟩
      refine restores_object rfl (by decide) ?_
      apply Builds.required (restores_array fun row hRow => AnnotationRow.restores (h row hRow))
      apply Builds.required (restores_array fun error _ => RowError.restores error)
      exact .nil
  | unreadable reason =>
      have hReader : ofFields? "unreadable" = fun value => (fields? ["reason"] value).bind
          fun fields => (fields.required? "reason" string?).bind fun reason =>
            some (.unreadable reason) := by
        funext value
        simp only [ofFields?, Option.map_eq_bind]
        rfl
      refine ⟨"unreadable", _, rfl, by simp, ?_⟩
      rw [hReader]
      refine restores_object rfl (by decide) ?_
      apply Builds.required (restores_string reason)
      exact .nil

theorem restores (h : state.IsFinite) : Restores ofJson? state.toJson state := by
  obtain ⟨name, members, hJson, hNames, hMembers⟩ := exists_members h
  have hReadable : state.toJson.Readable := by
    rw [hJson, readable_object, List.forall_mem_cons]
    exact ⟨trivial, readable_object.mp hMembers.readable⟩
  have hFree : (state.toJson.hasValue && decide (state.toJson.depth ≤ freeDepth)) = true := by
    rw [hasValue_of_readable hReadable, Bool.true_and]
    exact decide_eq_true (depth_toJson_le state)
  refine ⟨hReadable, by rw [hJson]; nofun, ?_⟩
  rw [ofJson?, if_pos hFree, hJson, splitName?_cons hNames, Option.bind_some]
  exact hMembers.read_eq

end LabelState

theorem IndexEntry.restores {entry : IndexEntry} (h : entry.labels.IsFinite) :
    Restores ofJson? entry.toJson entry := by
  refine restores_record rfl (by decide) ?_
  apply Builds.required (Split.restores entry.split)
  apply Builds.required (restores_string entry.image)
  apply Builds.optional fun label _ => restores_string label
  apply Builds.required (restores_uint64 entry.sizeBytes)
  apply Builds.required (restores_int64 entry.mtimeNs)
  apply Builds.optional fun hash _ => restores_string hash
  apply Builds.optional fun hash _ => restores_uint64 hash
  apply Builds.optional fun width _ => restores_uint32 width
  apply Builds.optional fun height _ => restores_uint32 height
  apply Builds.optional fun error _ => restores_string error
  apply Builds.required (LabelState.restores h)
  exact .nil

theorem SplitInfo.restores {info : SplitInfo} (h : info.imageCount < UInt64.size) :
    Restores ofJson? info.toJson info := by
  refine restores_object rfl (by decide) ?_
  apply Builds.required (Split.restores info.split)
  apply Builds.required (restores_string info.imagesDir)
  apply Builds.required (restores_string info.labelsDir)
  apply Builds.required (restores_count h)
  apply Builds.required (restores_texts info.orphanLabels)
  exact .nil

theorem CacheBasis.restores {basis : CacheBasis} (h : basis.maxImages < UInt64.size) :
    Restores ofJson? basis.toJson basis := by
  refine restores_object rfl (by decide) ?_
  apply Builds.required (restores_string basis.datasetRoot)
  apply Builds.required (restores_string basis.toolVersion)
  apply Builds.required (restores_texts basis.enabledChecks)
  apply Builds.required (restores_bool basis.perceptualHashing)
  apply Builds.required (restores_uint32 basis.phashHammingThreshold)
  apply Builds.required (restores_count h)
  exact .nil

/-- Whether an index has finite coordinates only, and counts that fit into sixty-four bits. -/
structure Index.Writable (index : Index) : Prop where
  entries : ∀ entry ∈ index.entries, entry.labels.IsFinite
  splits : ∀ info ∈ index.splits, info.imageCount < UInt64.size
  basis : index.cacheBasis.maxImages < UInt64.size

theorem Index.restores {index : Index} (h : index.Writable) :
    Restores ofJson? index.toJson index := by
  refine restores_record rfl (by decide) ?_
  apply Builds.required (restores_string index.schemaVersion)
  apply Builds.required (restores_string index.toolVersion)
  apply Builds.required (restores_string index.datasetRoot)
  apply Builds.optional fun dataYaml _ => restores_string dataYaml
  apply Builds.required (restores_texts index.classNames)
  apply Builds.required
    (restores_array fun info hInfo => SplitInfo.restores (h.splits info hInfo))
  apply Builds.required (restores_bool index.perceptualHashing)
  apply Builds.required (CacheBasis.restores h.basis)
  apply Builds.required (restores_string index.cacheKey)
  apply Builds.required
    (restores_array fun entry hEntry => IndexEntry.restores (h.entries entry hEntry))
  exact .nil

end DatasetAudit
