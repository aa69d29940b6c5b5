import DatasetAudit.Artifact.Summary
import DatasetAudit.Proofs.Json.Document

/-! Records read back field by field. A field is found by its name, the names of a record being
different, and its value is restored by the reader for values of its kind. -/

namespace DatasetAudit

namespace Json

variable {α κ : Type} {read : Json → Option α} {value : Json} {a : α} {names : List String}
  {name : String}

/-- A value stands for `a`: it has a text of its own, the reader takes it for `a`, and it is not
the value that stands for a missing field. -/
structure Restores (read : Json → Option α) (value : Json) (a : α) : Prop where
  readable : value.Readable
  ne_null : value ≠ .null
  read_eq : read value = some a

section Lookup

variable {β : Type} [DecidableEq κ] {key : κ} {b : β} {pairs : List (κ × β)}

theorem lookup_eq_none (h : key ∉ pairs.map (·.1)) : pairs.lookup key = none := by
  rw [List.lookup_eq_none_iff]
  intro pair hPair
  rw [bne_iff_ne]
  rintro rfl
  exact h (List.mem_map_of_mem hPair)

/-- Among different keys every value is found. -/
theorem lookup_eq_some (hKeys : (pairs.map (·.1)).Nodup) (h : (key, b) ∈ pairs) :
    pairs.lookup key = some b := by
  induction pairs with
  | nil => cases h
  | cons pair pairs ih =>
      rw [List.map_cons, List.nodup_cons] at hKeys
      rw [List.lookup_cons]
      rcases List.mem_cons.mp h with rfl | h
      · simp
      · have hNe : (key == pair.1) = false := by
          rw [beq_eq_false_iff_ne]
          rintro rfl
          exact hKeys.1 (List.mem_map_of_mem (f := (·.1)) h)
        rw [hNe]
        exact ih hKeys.2 h

/-- Where the pairs are those of a table, the table's value is found, in whatever order they are. -/
theorem lookup_eq_of_mem_iff {table : κ → Option β}
    (h : ∀ key b, (key, b) ∈ pairs ↔ table key = some b) : pairs.lookup key = table key := by
  cases hLookup : pairs.lookup key with
  | none =>
      cases hTable : table key with
      | none => rfl
      | some b =>
          have hNe := List.lookup_eq_none_iff.mp hLookup _ ((h key b).mpr hTable)
          simp at hNe
  | some b =>
      obtain ⟨front, back, rfl, -⟩ := List.lookup_eq_some_iff.mp hLookup
      exact ((h key b).mp (by simp)).symm

end Lookup

section Fields

/-- An object of members with different names, all of them fields of a record, is read as them. -/
theorem fields?_object {members : List (String × Json)}
    (hNames : ∀ member ∈ members, member.1 ∈ names) (hNodup : (members.map (·.1)).Nodup) :
    fields? names (.object members) = some members := by
  have hKnown : (members.filter fun member => names.contains member.1) = members := by
    rw [List.filter_eq_self]
    intro member hMember
    simpa using hNames member hMember
  change (if ((members.filter fun member => names.contains member.1).map (·.1)).Nodup then
    some (members.filter fun member => names.contains member.1) else none) = some members
  rw [hKnown, if_pos hNodup]

theorem map_fst_members (fields : List (String × Option Json)) :
    (fields.filterMap fun (name, value) => value.map (name, ·)).map (·.1) =
      (fields.filter fun field => field.2.isSome).map (·.1) := by
  induction fields with
  | nil => rfl
  | cons field fields ih =>
      obtain ⟨name, _ | value⟩ := field <;> simp [ih]

/-- A record is read as its fields, and those without a value are not found. -/
theorem fields?_record {fields : List (String × Option Json)} (hNames : fields.map (·.1) = names)
    (hNodup : names.Nodup) : ∃ found, fields? names (record fields) = some found ∧
      ∀ field ∈ fields, found.lookup field.1 = field.2 := by
  subst hNames
  have hSublist := (List.filter_sublist (p := fun field : String × Option Json => field.2.isSome)
    (l := fields)).map (·.1)
  rw [← map_fst_members] at hSublist
  refine ⟨_, fields?_object (fun member hMember => ?_) (hNodup.sublist hSublist), ?_⟩
  · exact hSublist.subset (List.mem_map_of_mem hMember)
  · rintro ⟨name, _ | value⟩ hField
    · apply lookup_eq_none
      rw [map_fst_members]
      intro hName
      obtain ⟨other, hOther, hEq⟩ := List.mem_map.mp hName
      obtain ⟨hOther, hSome⟩ := List.mem_filter.mp hOther
      obtain rfl := List.inj_on_of_nodup_map hNodup hOther hField hEq
      cases hSome
    · apply lookup_eq_some (hNodup.sublist hSublist)
      exact List.mem_filterMap.mpr ⟨(name, some value), hField, rfl⟩

theorem readable_object {members : List (String × Json)} :
    (Json.object members).Readable ↔ ∀ member ∈ members, member.2.Readable := by
  rw [Readable, membersReadable_iff]

theorem readable_record {fields : List (String × Option Json)} :
    (record fields).Readable ↔ ∀ field ∈ fields, ∀ value ∈ field.2, value.Readable := by
  rw [record, readable_object]
  constructor
  · rintro h ⟨name, _⟩ hField value rfl
    exact h (name, value) (List.mem_filterMap.mpr ⟨_, hField, rfl⟩)
  · intro h member hMember
    obtain ⟨⟨name, _⟩, hField, hValue⟩ := List.mem_filterMap.mp hMember
    obtain ⟨value, rfl, rfl⟩ := Option.map_eq_some_iff.mp hValue
    exact h _ hField value rfl

theorem record_map_some (members : List (String × Json)) :
    record (members.map fun member => (member.1, some member.2)) = .object members := by
  simp [record]

end Fields

section Records

variable {fields : List (String × Option Json)} {build : Fields → Option α}

/-- From any fields in which these are found `a` is built, and their values have texts. -/
structure Builds (fields : List (String × Option Json)) (build : Fields → Option α) (a : α) :
    Prop where
  readable : ∀ field ∈ fields, ∀ value ∈ field.2, value.Readable
  build_eq : ∀ found : Fields, (∀ field ∈ fields, found.lookup field.1 = field.2) →
    build found = some a

theorem Builds.nil : Builds [] (fun _ => some a) a :=
  ⟨nofun, fun _ _ => rfl⟩

section Step

variable {β : Type} {b : β} {next : Fields → β → Option α}

/-- A field that must be there comes before others. -/
theorem Builds.required {read : Json → Option β} (h : Restores read value b)
    (hNext : Builds fields (fun found => next found b) a) :
    Builds ((name, some value) :: fields)
      (fun found => (found.required? name read).bind (next found)) a := by
  refine ⟨?_, fun found hFound => ?_⟩
  · rw [List.forall_mem_cons]
    refine ⟨?_, hNext.readable⟩
    rintro _ ⟨⟩
    exact h.readable
  · rw [List.forall_mem_cons] at hFound
    rw [Fields.required?, hFound.1, Option.bind_some, h.read_eq, Option.bind_some]
    exact hNext.build_eq found hFound.2

/-- A field that may be left out comes before others. -/
theorem Builds.optional {read : Json → Option β} {write : β → Json} {x : Option β}
    {next : Fields → Option β → Option α} (h : ∀ b ∈ x, Restores read (write b) b)
    (hNext : Builds fields (fun found => next found x) a) :
    Builds ((name, x.map write) :: fields)
      (fun found => (found.optional? name read).bind (next found)) a := by
  refine ⟨?_, fun found hFound => ?_⟩
  · rw [List.forall_mem_cons]
    refine ⟨?_, hNext.readable⟩
    intro _ hValue
    obtain ⟨b, hb, rfl⟩ := Option.map_eq_some_iff.mp hValue
    exact (h b hb).readable
  · rw [List.forall_mem_cons] at hFound
    have hField : found.optional? name read = some x := by
      rw [Fields.optional?, hFound.1]
      cases x with
      | none => rfl
      | some b =>
          obtain ⟨-, hNull, hRead⟩ := h b rfl
          simp only [Option.map_some, hRead]
    rw [hField, Option.bind_some]
    exact hNext.build_eq found hFound.2

/-- A value that stands for itself may be left out too. -/
theorem Builds.optional_self {read : Json → Option Json} {x : Option Json}
    {next : Fields → Option Json → Option α} (h : ∀ value ∈ x, Restores read value value)
    (hNext : Builds fields (fun found => next found x) a) :
    Builds ((name, x) :: fields)
      (fun found => (found.optional? name read).bind (next found)) a := by
  have hField : Builds ((name, x.map id) :: fields) _ a := Builds.optional h hNext
  rwa [Option.map_id] at hField

end Step

/-- A record is restored if it is built from its fields, which have different names. -/
theorem restores_record (hNames : fields.map (·.1) = names) (hNodup : names.Nodup)
    (h : Builds fields build a) :
    Restores (fun value => (fields? names value).bind build) (record fields) a := by
  obtain ⟨found, hFound, hLookup⟩ := fields?_record hNames hNodup
  refine ⟨readable_record.mpr h.readable, nofun, ?_⟩
  simp only [hFound, Option.bind_some]
  exact h.build_eq found hLookup

/-- A record all of whose fields have values is restored like every other one. -/
theorem restores_object {members : List (String × Json)}
    (hNames : (members.map fun member => (member.1, some member.2)).map (·.1) = names)
    (hNodup : names.Nodup)
    (h : Builds (members.map fun member => (member.1, some member.2)) build a) :
    Restores (fun value => (fields? names value).bind build) (.object members) a := by
  rw [← record_map_some]
  exact restores_record hNames hNodup h

end Records

section Kinds

theorem readable_integer {n : Int} (hLow : -2 ^ 63 ≤ n) (hHigh : n < 2 ^ 64) :
    (Json.integer n).Readable := by
  rw [Readable]
  exact ⟨hLow, hHigh⟩

theorem restores_string (s : String) : Restores string? (.string s) s :=
  ⟨trivial, nofun, rfl⟩

theorem restores_bool (b : Bool) : Restores bool? (.bool b) b :=
  ⟨trivial, nofun, rfl⟩

theorem restores_float {x : Float} (h : x.isFinite = true) : Restores float? (.float x) x :=
  ⟨h, nofun, rfl⟩

theorem below?_ofNat {n bound : Nat} (h : n < bound) : below? bound (.ofNat n) = some n := by
  have hFits : (decide (0 ≤ (n : Int)) && decide ((n : Int) < bound)) = true := by
    rw [Bool.and_eq_true, decide_eq_true_eq, decide_eq_true_eq]
    omega
  rw [below?, ofNat, integer?, Option.bind_some, if_pos hFits, Int.toNat_natCast]

theorem readable_ofNat {n : Nat} (h : n < UInt64.size) : (Json.ofNat n).Readable := by
  have hSize : UInt64.size = 2 ^ 64 := rfl
  rw [hSize] at h
  exact readable_integer (by omega) (by exact_mod_cast h)

theorem restores_count {n : Nat} (h : n < UInt64.size) : Restores count? (.ofNat n) n :=
  ⟨readable_ofNat h, nofun, below?_ofNat h⟩

theorem restores_uint64 (n : UInt64) : Restores uint64? (.ofNat n.toNat) n := by
  refine ⟨readable_ofNat n.toNat_lt_size, nofun, ?_⟩
  rw [uint64?, below?_ofNat n.toNat_lt_size, Option.map_some, UInt64.ofNat_toNat]

theorem restores_uint32 (n : UInt32) : Restores uint32? (.ofNat n.toNat) n := by
  have hSize : UInt32.size ≤ UInt64.size := by decide
  refine ⟨readable_ofNat (n.toNat_lt_size.trans_le hSize), nofun, ?_⟩
  rw [uint32?, below?_ofNat n.toNat_lt_size, Option.map_some, UInt32.ofNat_toNat]

theorem restores_int64 (n : Int64) : Restores int64? (.integer n.toInt) n := by
  have hFits : (decide (Int64.minValue.toInt ≤ n.toInt) &&
      decide (n.toInt ≤ Int64.maxValue.toInt)) = true := by
    rw [Bool.and_eq_true, decide_eq_true_eq, decide_eq_true_eq]
    exact ⟨n.minValue_le_toInt, n.toInt_le⟩
  refine ⟨readable_integer n.le_toInt (n.toInt_lt.trans (by norm_num)), nofun, ?_⟩
  rw [int64?, integer?, Option.bind_some, if_pos hFits, Int64.ofInt_toInt]

/-- An alternative is restored from its name if no other one before it has that name. -/
theorem restores_oneOf {all : List α} {nameOf : α → String}
    (h : (all.find? fun other => nameOf other == nameOf a) = some a) :
    Restores (oneOf? all nameOf) (.string (nameOf a)) a :=
  ⟨trivial, nofun, h⟩

theorem restores_array {write : α → Json} {items : List α}
    (h : ∀ item ∈ items, Restores read (write item) item) :
    Restores (array? read) (.array (items.map write)) items := by
  refine ⟨?_, nofun, ?_⟩
  · rw [Readable, itemsReadable_iff, List.forall_mem_map]
    exact fun item hItem => (h item hItem).readable
  · rw [array?]
    induction items with
    | nil => rfl
    | cons item items ih =>
        have hItem := h item List.mem_cons_self
        have hItems := ih fun other hOther => h other (List.mem_cons_of_mem _ hOther)
        rw [List.map_cons, List.mapM_cons, hItem.read_eq, hItems]
        rfl

theorem restores_texts (texts : List String) : Restores (array? string?) (.ofTexts texts) texts :=
  restores_array fun text _ => restores_string text

end Kinds

section Tables

variable {keys : List κ} {nameOf : κ → String} {ofName? : String → Option κ} {write : α → Json}
  {table : κ → Option α}

/-- The members of a table are read as its keys with their values. -/
theorem table?_ofTable (hNames : ∀ key, ofName? (nameOf key) = some key)
    (h : ∀ key, ∀ a ∈ table key, Restores read (write a) a) :
    table? ofName? read (ofTable keys nameOf write table) =
      some (keys.filterMap fun key => (table key).map (key, ·)) := by
  rw [ofTable, table?]
  induction keys with
  | nil => rfl
  | cons key keys ih =>
      cases hValue : table key with
      | none => simpa [hValue] using ih
      | some a =>
          simp only [List.filterMap_cons, hValue, Option.map_some]
          rw [List.mapM_cons, ih]
          simp only [hNames, (h key a hValue).read_eq, Option.bind_eq_bind, Option.bind_some]
          rfl

/-- A table is restored if it has a place for every key and every key has a name of its own. -/
theorem restores_table [DecidableEq κ] (hAll : ∀ key, key ∈ keys)
    (hNames : ∀ key, ofName? (nameOf key) = some key)
    (h : ∀ key, ∀ a ∈ table key, Restores read (write a) a) :
    Restores (readTable? ofName? read) (ofTable keys nameOf write table) table := by
  refine ⟨?_, nofun, ?_⟩
  · rw [ofTable, readable_object]
    intro member hMember
    obtain ⟨key, -, hPair⟩ := List.mem_filterMap.mp hMember
    obtain ⟨a, ha, rfl⟩ := Option.map_eq_some_iff.mp hPair
    exact (h key a ha).readable
  · rw [readTable?, table?_ofTable hNames h, Option.map_some]
    congr 1
    funext key
    apply lookup_eq_of_mem_iff
    intro key a
    simp [hAll]

end Tables

end Json

end DatasetAudit
