import DatasetAudit.Proofs.Artifact.Reading

/-! An index that cannot be restored from its document is not read at all. A coordinate that is not
finite is written as no value, which no number may be, and a count of more than sixty-four bits comes
back as a float; one of them anywhere in the index has the whole document refused. -/

namespace DatasetAudit

open Json

namespace Json

variable {α β : Type} {fields : List (String × Option Json)} {names : List String} {name : String}
  {found : Fields} {value : Json} {read : Json → Option β}

theorem echo_record (fields : List (String × Option Json)) :
    (record fields).echo = record (fields.map fun field => (field.1, field.2.map echo)) := by
  rw [record, echo, echoMembers_eq_map, record]
  congr 1
  induction fields with
  | nil => rfl
  | cons field fields ih => obtain ⟨name, _ | value⟩ := field <;> simp [ih]

section Records

variable {a : α} {reader : Json → Option α} {build : Fields → Option α}

/-- A written record is built from fields in which each of its values is found by its name. -/
theorem exists_of_record? (h : reader value.echo = some a) (hValue : value = record fields)
    (hReader : ∀ value, reader value = (fields? names value).bind build)
    (hNames : fields.map (·.1) = names) (hNodup : names.Nodup) :
    ∃ found, (∀ field ∈ fields, found.lookup field.1 = field.2.map echo) ∧
      build found = some a := by
  have hEchoed : (fields.map fun field => (field.1, field.2.map echo)).map (·.1) = names := by
    rw [List.map_map, ← hNames]
    rfl
  obtain ⟨found, hFound, hLookup⟩ := fields?_record hEchoed hNodup
  rw [hReader, hValue, echo_record, hFound, Option.bind_some] at h
  exact ⟨found, fun field hField => hLookup _ (List.mem_map_of_mem hField), h⟩

theorem exists_of_object? {members : List (String × Json)} (h : reader value.echo = some a)
    (hValue : value = .object members)
    (hReader : ∀ value, reader value = (fields? names value).bind build)
    (hNames : members.map (·.1) = names) (hNodup : names.Nodup) :
    ∃ found, (∀ member ∈ members, found.lookup member.1 = some member.2.echo) ∧
      build found = some a := by
  rw [← record_map_some] at hValue
  obtain ⟨found, hLookup, hBuild⟩ :=
    exists_of_record? h hValue hReader (by rw [List.map_map, ← hNames]; rfl) hNodup
  exact ⟨found, fun member hMember => hLookup _ (List.mem_map_of_mem hMember), hBuild⟩

end Records

theorem read_eq_of_required? {b : β} (h : found.required? name read = some b)
    (hLookup : found.lookup name = some value) : read value = some b := by
  rwa [Fields.required?, hLookup] at h

theorem isFinite_of_float? {x y : Float} (h : float? (Json.float x).echo = some y) :
    x.isFinite = true := by
  rw [echo, ofFloat] at h
  by_contra hNot
  rw [if_neg hNot] at h
  cases h

theorem lt_of_count? {n m : Nat} (h : count? (Json.ofNat n).echo = some m) : n < UInt64.size := by
  by_contra hNot
  have hEcho : (Json.ofNat n).echo = ofDecimal ⟨false, n, 0⟩ := by
    have hSign : ¬ (n : Int) < 0 := by omega
    simp [ofNat, echo, ofWhole, hSign, hNot]
  have hNone : (ofDecimal ⟨false, n, 0⟩).integer? = none := by
    unfold ofDecimal
    simp only
    split <;> rfl
  rw [hEcho, count?, below?, hNone] at h
  cases h

/-- An array is read only if every item of it is. -/
theorem exists_of_array? {write : α → Json} {items : List α} {values : List β}
    (h : array? read (Json.array (items.map write)).echo = some values) :
    ∀ item ∈ items, ∃ b, read (write item).echo = some b := by
  rw [echo, echoItems_eq_map, List.map_map, array?] at h
  induction items generalizing values with
  | nil => exact List.forall_mem_nil _
  | cons item items ih =>
      rw [List.map_cons, List.mapM_cons] at h
      obtain ⟨b, hRead, hRest⟩ := Option.bind_eq_some_iff.mp h
      obtain ⟨bs, hItems, -⟩ := Option.bind_eq_some_iff.mp hRest
      rw [List.forall_mem_cons]
      exact ⟨⟨b, hRead⟩, ih hItems⟩

end Json

/-- An annotation is read only if its coordinates are finite. -/
theorem AnnotationRow.isFinite_of_ofJson? {row other : AnnotationRow}
    (h : ofJson? row.toJson.echo = some other) : row.IsFinite := by
  obtain ⟨found, hLookup, hBuild⟩ := exists_of_record? h rfl (fun _ => rfl) rfl (by decide)
  simp only [Option.bind_eq_bind, Option.bind_eq_some_iff] at hBuild
  obtain ⟨-, -, -, -, x, hX, y, hY, w, hWidth, height, hHeight, corners, hCorners, -⟩ := hBuild
  simp only [List.forall_mem_cons, Option.map_some] at hLookup
  obtain ⟨-, -, hX', hY', hWidth', hHeight', hCorners', -⟩ := hLookup
  refine ⟨isFinite_of_float? (read_eq_of_required? hX hX'),
    isFinite_of_float? (read_eq_of_required? hY hY'),
    isFinite_of_float? (read_eq_of_required? hWidth hWidth'),
    isFinite_of_float? (read_eq_of_required? hHeight hHeight'), ?_⟩
  intro given hGiven value hValue
  rw [Option.mem_def.mp hGiven, Option.map_some, Option.map_some] at hCorners'
  rw [Fields.optional?, hCorners'] at hCorners
  obtain ⟨values, hValues, -⟩ := Option.map_eq_some_iff.mp hCorners
  obtain ⟨_, hRead⟩ := exists_of_array? hValues value hValue
  exact isFinite_of_float? hRead

/-- A label state is read only if the coordinates of its rows are finite. -/
theorem LabelState.isFinite_of_ofJson? {state other : LabelState}
    (h : ofJson? state.toJson.echo = some other) : state.IsFinite := by
  cases state with
  | missing => exact nofun
  | unreadable _ => exact nofun
  | parsed rows errors =>
      intro row hRow
      rw [ofJson?] at h
      split at h
      · have hFields : ofFields? "parsed" (Json.object
            [("rows", .array (rows.map AnnotationRow.toJson)),
              ("errors", .array (errors.map RowError.toJson))]).echo = some other := by
          have hName : (Json.string "parsed").echo = .string "parsed" := rfl
          rwa [toJson, echo, echoMembers, hName, splitName?_cons (by simp [echoMembers])] at h
        obtain ⟨found, hLookup, hBuild⟩ :=
          exists_of_object? hFields rfl (fun _ => rfl) rfl (by decide)
        simp only [Option.bind_eq_bind, Option.bind_eq_some_iff] at hBuild
        obtain ⟨_, hRows, -⟩ := hBuild
        simp only [List.forall_mem_cons] at hLookup
        obtain ⟨_, hRead⟩ := exists_of_array? (read_eq_of_required? hRows hLookup.1) row hRow
        exact AnnotationRow.isFinite_of_ofJson? hRead
      · cases h

theorem IndexEntry.isFinite_of_ofJson? {entry other : IndexEntry}
    (h : ofJson? entry.toJson.echo = some other) : entry.labels.IsFinite := by
  obtain ⟨found, hLookup, hBuild⟩ := exists_of_record? h rfl (fun _ => rfl) rfl (by decide)
  simp only [Option.bind_eq_bind, Option.bind_eq_some_iff] at hBuild
  obtain ⟨-, -, -, -, -, -, -, -, -, -, -, -, -, -, -, -, -, -, -, -, labels, hLabels, -⟩ := hBuild
  have hLookup := hLookup ("labels", some entry.labels.toJson) (by simp)
  exact LabelState.isFinite_of_ofJson? (read_eq_of_required? hLabels hLookup)

theorem SplitInfo.imageCount_lt_of_ofJson? {info other : SplitInfo}
    (h : ofJson? info.toJson.echo = some other) : info.imageCount < UInt64.size := by
  obtain ⟨found, hLookup, hBuild⟩ := exists_of_object? h rfl (fun _ => rfl) rfl (by decide)
  simp only [Option.bind_eq_bind, Option.bind_eq_some_iff] at hBuild
  obtain ⟨-, -, -, -, -, -, _, hCount, -⟩ := hBuild
  have hLookup := hLookup ("image_count", .ofNat info.imageCount) (by simp)
  exact lt_of_count? (read_eq_of_required? hCount hLookup)

theorem CacheBasis.maxImages_lt_of_ofJson? {basis other : CacheBasis}
    (h : ofJson? basis.toJson.echo = some other) : basis.maxImages < UInt64.size := by
  obtain ⟨found, hLookup, hBuild⟩ := exists_of_object? h rfl (fun _ => rfl) rfl (by decide)
  simp only [Option.bind_eq_bind, Option.bind_eq_some_iff] at hBuild
  obtain ⟨-, -, -, -, -, -, -, -, -, -, _, hCount, -⟩ := hBuild
  have hLookup := hLookup ("max_images", .ofNat basis.maxImages) (by simp)
  exact lt_of_count? (read_eq_of_required? hCount hLookup)

namespace Index

variable {index other : Index}

theorem writable_of_ofJson? (h : ofJson? index.toJson.echo = some other) : index.Writable := by
  obtain ⟨found, hLookup, hBuild⟩ := exists_of_record? h rfl (fun _ => rfl) rfl (by decide)
  simp only [Option.bind_eq_bind, Option.bind_eq_some_iff] at hBuild
  obtain ⟨-, -, -, -, -, -, -, -, -, -, _, hSplits, -, -, _, hBasis, -, -, _, hEntries, -⟩ := hBuild
  have hSplits' := hLookup ("splits", some (.array (index.splits.map SplitInfo.toJson))) (by simp)
  have hBasis' := hLookup ("cache_basis", some index.cacheBasis.toJson) (by simp)
  have hEntries' :=
    hLookup ("entries", some (.array (index.entries.map IndexEntry.toJson))) (by simp)
  refine ⟨fun entry hEntry => ?_, fun info hInfo => ?_,
    CacheBasis.maxImages_lt_of_ofJson? (read_eq_of_required? hBasis hBasis')⟩
  · obtain ⟨_, hRead⟩ := exists_of_array? (read_eq_of_required? hEntries hEntries') entry hEntry
    exact IndexEntry.isFinite_of_ofJson? hRead
  · obtain ⟨_, hRead⟩ := exists_of_array? (read_eq_of_required? hSplits hSplits') info hInfo
    exact SplitInfo.imageCount_lt_of_ofJson? hRead

/-- A document of an index is read as that index or not at all. -/
theorem parse?_document_eq_some_iff :
    parse? index.toJson.document = some other ↔ index.Writable ∧ other = index := by
  constructor
  · intro h
    have hEcho : ofJson? index.toJson.echo = some other := by
      rwa [parse?, parse?_document_eq_echo] at h
    have hWritable := writable_of_ofJson? hEcho
    rw [parse?, (Index.restores hWritable).parse?_bind] at h
    exact ⟨hWritable, (Option.some.inj h).symm⟩
  · rintro ⟨hWritable, rfl⟩
    exact (Index.restores hWritable).parse?_bind

theorem parse?_document_eq_none (h : ¬ index.Writable) : parse? index.toJson.document = none := by
  rw [Option.eq_none_iff_forall_ne_some]
  intro other hParse
  exact h (parse?_document_eq_some_iff.mp hParse).1

end Index

end DatasetAudit
