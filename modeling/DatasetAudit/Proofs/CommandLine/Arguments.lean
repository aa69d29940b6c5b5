import DatasetAudit.CommandLine.Arguments
import DatasetAudit.Proofs.Except

/-! What the arguments of a command can give. An option is one that its table knows, with a value that
its reader has taken; so no path in a command is empty. -/

namespace DatasetAudit.CommandLine

namespace OptionTable

variable {α : Type} {table : OptionTable α} {P : α → Prop}

theorem mem_of_lookup {β : Type} {members : List (String × β)} {name : String} {value : β}
    (h : members.lookup name = some value) : (name, value) ∈ members := by
  obtain ⟨before, after, rfl, _⟩ := List.lookup_eq_some_iff.mp h
  exact List.mem_append_right _ List.mem_cons_self

/-- Whether something holds of every option that a table can give. -/
structure Ensures (table : OptionTable α) (P : α → Prop) : Prop where
  flags : ∀ flag ∈ table.flags, P flag.2
  readers : ∀ reader ∈ table.readers, ∀ text, ∀ option ∈ reader.2 text, P option

namespace Ensures

variable {name : String} {options : List α}

theorem of_reader {read : String → Option α} {text : String} {rest left : List String} {option : α}
    (hTable : table.Ensures P) (hReader : table.readers.lookup name = some read)
    (h : (read text).map (·, rest) = some (option, left)) : P option := by
  obtain ⟨_, hRead, hOption⟩ := Option.map_eq_some_iff.mp h
  cases hOption
  exact hTable.readers _ (mem_of_lookup hReader) text option hRead

theorem of_readOption? {attached : Option String} {rest left : List String} {option : α}
    (hTable : table.Ensures P)
    (h : table.readOption? name attached rest = some (option, left)) : P option := by
  unfold readOption? at h
  split at h
  · rename_i hFlag
    cases h
    exact hTable.flags _ (mem_of_lookup hFlag)
  · rename_i hReader
    exact hTable.of_reader hReader h
  · rename_i hReader
    split at h
    · exact hTable.of_reader hReader h
    · cases h
  · cases h

/-- What a table ensures of each option holds of all that are read. -/
theorem of_readAll (hTable : table.Ensures P) {steps : Nat} {seen arguments : List String}
    (h : table.readAll steps seen arguments = .ok options) : ∀ option ∈ options, P option := by
  induction steps generalizing seen arguments options with
  | zero =>
      cases arguments with
      | nil =>
          cases h
          exact List.forall_mem_nil _
      | cons _ _ => cases h
  | succ steps ih =>
      cases arguments with
      | nil =>
          cases h
          exact List.forall_mem_nil _
      | cons argument rest =>
          rw [readAll] at h
          split at h
          · split at h
            · cases h
              exact List.forall_mem_nil _
            · cases h
          · cases h
          · cases h
          · split at h
            · cases h
            · rename_i option left hRead
              split at h
              · cases h
              · obtain ⟨others, hRest, rfl⟩ := Except.exists_of_map h
                exact List.forall_mem_cons.mpr ⟨hTable.of_readOption? hRead, ih hRest⟩
          · cases h

end Ensures

end OptionTable

theorem ne_empty_of_path? {text path : String} (h : path? text = some path) : path ≠ "" := by
  unfold path? at h
  split at h
  · cases h
  · rename_i hText
    cases h
    simpa using hText

/-- A directory that is named is not the empty text. -/
theorem auditTable_ensures : auditTable.Ensures fun option => ∀ path ∈ option.out?, path ≠ "" where
  flags := by
    simp [auditTable, AuditOption.out?]
  readers := by
    simp only [auditTable, List.forall_mem_cons, Option.mem_def, Option.map_eq_some_iff]
    refine ⟨?_, ?_, ?_, ?_, ?_, ?_, ?_, ?_, List.forall_mem_nil _⟩
    case refine_2 =>
      rintro text _ ⟨path, hPath, rfl⟩ _ ⟨⟩
      exact ne_empty_of_path? hPath
    all_goals
      rintro text _ ⟨value, _, rfl⟩ path hPath
      cases hPath

namespace AuditCommand

theorem out_foldl_takeOption_ne {options : List AuditOption} {command : AuditCommand}
    (hOptions : ∀ option ∈ options, ∀ path ∈ option.out?, path ≠ "") (hOut : command.out ≠ "") :
    (options.foldl takeOption command).out ≠ "" := by
  induction options generalizing command with
  | nil => exact hOut
  | cons option options ih =>
      rw [List.forall_mem_cons] at hOptions
      apply ih hOptions.2
      cases option with
      | out path => exact hOptions.1 path rfl
      | _ => exact hOut

/-- The directory of a run is not the empty text. -/
theorem out_ne_of_parse {arguments : List String} {command : AuditCommand}
    (h : Command.parse arguments = .ok (.audit command)) : command.out ≠ "" := by
  unfold Command.parse at h
  split at h
  · cases h
  · obtain ⟨command', hOptions, hCommand⟩ := Except.exists_of_map h
    cases hCommand
    obtain ⟨options, hRead, hOptions⟩ := Except.exists_of_bind hOptions
    have hAll := auditTable_ensures.of_readAll hRead
    unfold ofOptions at hOptions
    split at hOptions
    · rename_i data out _ hOut
      cases hOptions
      obtain ⟨option, hOption, hPath⟩ := List.exists_of_findSome?_eq_some hOut
      exact out_foldl_takeOption_ne hAll (hAll option hOption out hPath)
    · cases hOptions
  · obtain ⟨_, _, hCommand⟩ := Except.exists_of_map h
    cases hCommand
  · obtain ⟨_, _, hCommand⟩ := Except.exists_of_map h
    cases hCommand
  · cases h
  · split at h <;> cases h

end AuditCommand

end DatasetAudit.CommandLine
