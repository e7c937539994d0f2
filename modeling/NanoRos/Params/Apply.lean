import NanoRos.Params.Server

/-! What a write does to the store: the staged write is the write by value, a refusal leaves the
store alone, and a write that is let through changes the one parameter it names. -/

namespace NanoRos

namespace ParameterServer

/-! The two writers. -/

theorem setValueAt_place (s : ParameterServer) (slot : Nat) (entry : ParameterEntry)
    (value : ParameterValue) : (s.place slot entry).setValueAt slot value =
      s.place slot { entry with param := { entry.param with value := value } } := by
  unfold place setValueAt
  congr 1
  apply List.ext_getElem?
  intro i
  rw [List.getElem?_modify]
  by_cases here : slot = i
  · subst here
    by_cases inside : slot < s.entries.length
    · simp [inside]
    · simp [inside]
  · simp [here]

variable {caps : ParamCaps} {s : ParameterServer} {node : NodeKey} {name : String}

theorem setRef_found {value : ParameterValue} {idx : Nat} (found : s.findIndex node name = some idx)
    (checked : s.checkApply caps node name value = .ok ()) :
    s.setRef caps node name value =
      (.ok (), (s.setValueAt idx value).noteEvent caps node .changed name) := by
  obtain ⟨entry, held, _⟩ := KeyedSlots.find_eq_some found
  have entryOf : s.entryOf node name = some entry := by
    rw [findIndex] at found
    simp [ParameterServer.entryOf, KeyedSlots.lookup, found, held]
  rw [checkApply, entryOf] at checked
  have allowed : checkSetExisting entry value = .ok () := checked
  simp [setRef, found, held, allowed]

theorem declareRef_missing {value : ParameterValue} (missing : s.findIndex node name = none)
    (short : byteLen name ≤ caps.maxParamNameLen) :
    s.declareRef caps node name value =
      match s.findEmptySlot with
      | none => (false, s)
      | some slot =>
        (true, (s.place slot ⟨node, ⟨name, value⟩, none⟩).noteEvent caps node .new name) := by
  rcases empty : s.findEmptySlot with _ | slot
  · simp [declareRef, tryDeclareRef, missing, declarationConsistency, empty, Except.isOk,
      Except.toBool]
  · simp [declareRef, tryDeclareRef, missing, declarationConsistency, empty, Except.isOk,
      Except.toBool, Nat.not_lt.mpr short, noteDescriptor]

theorem checkApply_missing (missing : s.entryOf node name = none) (value : ParameterValue) :
    s.checkApply caps node name value = .ok () ↔
      s.allowsUndeclared node = true ∧ s.count < s.capacity ∧
        byteLen name ≤ caps.maxParamNameLen := by
  rw [checkApply, missing]
  dsimp only
  split
  next refused => simpa using fun allowed => absurd allowed (by simpa using refused)
  next allowed =>
    split
    next full =>
      rw [isFull, decide_eq_true_eq] at full
      simp [Nat.not_lt.mpr full]
    next room =>
      rw [isFull, decide_eq_true_eq, Nat.not_le] at room
      split
      next long => simp [Nat.not_le.mpr long]
      next short => simpa [room, Nat.not_lt.mp short] using allowed

theorem entryOf_eq_none_iff :
    s.entryOf node name = none ↔ s.findIndex node name = none := KeyedSlots.lookup_eq_none

theorem applyStaged_eq_apply (caps : ParamCaps) (s : ParameterServer) (node : NodeKey)
    (name : String) (value : ParameterValue) :
    s.applyStaged caps node name value = s.apply caps node name value := by
  unfold applyStaged apply applyRef
  split
  · rfl
  · cases checked : s.checkApply caps node name value with
    | error e => rfl
    | ok =>
      dsimp only
      split
      · rfl
      · cases found : s.findIndex node name with
        | some idx =>
          obtain ⟨entry, held, _⟩ := KeyedSlots.find_eq_some found
          rw [if_pos (by rfl), setRef_found found checked]
          simp [stagingTarget, found, held]
        | none =>
          have missing := entryOf_eq_none_iff.mpr found
          obtain ⟨_, _, short⟩ := (checkApply_missing missing value).mp checked
          rw [if_neg (by simp), declareRef_missing found short]
          cases empty : s.findEmptySlot with
          | none => simp [stagingTarget, found, declarePlaceholder, empty]
          | some slot =>
            have inside := (List.getElem?_eq_some_iff.mp
              (KeyedSlots.free_eq_some empty)).1
            have placed : ((s.place slot ⟨node, ⟨name, .notSet⟩, none⟩).entries[slot]?) =
                some (some ⟨node, ⟨name, .notSet⟩, none⟩) :=
              List.getElem?_set_self inside
            simp [stagingTarget, found, declarePlaceholder, empty, Nat.not_lt.mpr short,
              placed, setValueAt_place]

/-! What a write changes. -/

/-- A store as the calls on it leave it. -/
structure Valid (s : ParameterServer) : Prop where
  counted : s.count = KeyedSlots.occupied s.entries
  distinct : KeyedSlots.Distinct ParameterEntry.key s.entries

/-- Afterwards the one parameter is as given and everything else as before, the log apart. -/
structure Writes (s next : ParameterServer) (node : NodeKey) (name : String)
    (new : Option ParameterEntry) : Prop where
  valid : next.Valid
  entryOf : ∀ n m, next.entryOf n m = if (n, m) = (node, name) then new else s.entryOf n m
  capacity : next.capacity = s.capacity
  count : next.count + (s.entryOf node name).isSome.toNat = s.count + new.isSome.toNat
  allowUndeclared : next.allowUndeclared = s.allowUndeclared
  deleteOnNotSet : next.deleteOnNotSet = s.deleteOnNotSet
  onSet : next.onSet = s.onSet

theorem noteEvent_frame (caps : ParamCaps) (s : ParameterServer) (node : NodeKey)
    (kind : ParameterEventKind) (name : String) :
    ∃ log dropped, s.noteEvent caps node kind name =
      { s with eventLog := log, eventsDropped := dropped } := by
  unfold noteEvent
  dsimp only
  split
  · exact ⟨_, _, rfl⟩
  · split
    · exact ⟨_, _, rfl⟩
    · split <;> exact ⟨_, _, rfl⟩

section

variable {caps : ParamCaps} {s : ParameterServer} {node : NodeKey} {name : String}

theorem Writes.noteEvent {next : ParameterServer} {new : Option ParameterEntry}
    (writes : s.Writes next node name new) (kind : ParameterEventKind) :
    s.Writes (next.noteEvent caps node kind name) node name new := by
  obtain ⟨log, dropped, logged⟩ := noteEvent_frame caps next node kind name
  rw [logged]
  exact ⟨⟨writes.valid.counted, writes.valid.distinct⟩, writes.entryOf, writes.capacity,
    writes.count, writes.allowUndeclared, writes.deleteOnNotSet, writes.onSet⟩

variable {slot : Nat} {entry : ParameterEntry} {value : ParameterValue}

theorem Valid.writes (valid : s.Valid) {count : Nat} {old new : Option ParameterEntry}
    (target : KeyedSlots.Target ParameterEntry.key s.entries (node, name) slot)
    (held : s.entries[slot]? = some old) (named : ∀ entry, new = some entry →
      entry.key = (node, name)) (counts : count + old.isSome.toNat = s.count + new.isSome.toNat)
    (before : s.entryOf node name = old) :
    s.Writes { s with entries := s.entries.set slot new, count := count } node name new where
  valid := by
    refine ⟨?_, target.distinct_set valid.distinct named⟩
    have occupied := KeyedSlots.occupied_set held new
    have counted := valid.counted
    show count = KeyedSlots.occupied (s.entries.set slot new)
    omega
  entryOf := fun n m => target.lookup_set valid.distinct named (n, m)
  capacity := List.length_set
  count := by
    rw [before]
    exact counts
  allowUndeclared := rfl
  deleteOnNotSet := rfl
  onSet := rfl

theorem entryOf_of_found (found : s.findIndex node name = some slot)
    (held : s.entries[slot]? = some (some entry)) :
    s.entryOf node name = some entry := by
  rw [findIndex] at found
  simp [ParameterServer.entryOf, KeyedSlots.lookup, found, held]

theorem setValueAt_eq (held : s.entries[slot]? = some (some entry)) :
    s.setValueAt slot value = { s with
      entries := s.entries.set slot
        (some { entry with param := { entry.param with value := value } }) } := by
  unfold setValueAt
  congr 1
  apply List.ext_getElem?
  intro i
  rw [List.getElem?_modify]
  by_cases here : slot = i
  · subst here
    have inside := (List.getElem?_eq_some_iff.mp held).1
    rw [held, List.getElem?_set_self inside]
    simp
  · simp [here]

theorem Valid.setValue (valid : s.Valid) (found : s.findIndex node name = some slot)
    (held : s.entries[slot]? = some (some entry)) (value : ParameterValue) :
    s.Writes (s.setValueAt slot value) node name
      (some { entry with param := { entry.param with value := value } }) := by
  obtain ⟨other, same, key⟩ := KeyedSlots.find_eq_some found
  rw [held] at same
  cases same
  rw [setValueAt_eq held]
  apply valid.writes (KeyedSlots.target_of_find valid.distinct found) held
  · intro changed is
    cases is
    exact key
  · rfl
  · exact entryOf_of_found found held

theorem Valid.place (valid : s.Valid) (missing : s.entryOf node name = none)
    (empty : s.findEmptySlot = some slot) (value : ParameterValue) :
    s.Writes (s.place slot ⟨node, ⟨name, value⟩, none⟩) node name
      (some ⟨node, ⟨name, value⟩, none⟩) := by
  apply valid.writes
    (KeyedSlots.target_of_free (entryOf_eq_none_iff.mp missing) empty)
    (KeyedSlots.free_eq_some empty)
  · intro entry is
    cases is
    rfl
  · rfl
  · exact missing

theorem Valid.remove (valid : s.Valid) (held : s.entryOf node name = some entry) :
    s.Writes (s.remove caps node name).2 node name none := by
  cases found : s.findIndex node name with
  | none =>
    rw [entryOf_eq_none_iff.mpr found] at held
    cases held
  | some slot =>
    obtain ⟨entry', here, _⟩ := KeyedSlots.find_eq_some found
    have same := entryOf_of_found found here
    have counted := valid.counted
    have occupied := KeyedSlots.occupied_set here (none : Option ParameterEntry)
    simp only [ParameterServer.remove, found]
    apply Writes.noteEvent
    apply valid.writes (KeyedSlots.target_of_find valid.distinct found) here
    · intro entry impossible
      cases impossible
    · simp only [Option.isSome_some, Option.isSome_none, Bool.toNat_true,
        Bool.toNat_false] at occupied ⊢
      omega
    · exact same

theorem applyRef_unchecked {e : ParameterError} (sets : s.deletes node value = false)
    (refused : s.checkApply caps node name value = .error e) :
    s.applyRef caps node name value = (.error e, s) := by
  rw [ParameterServer.applyRef, sets, refused]
  rfl

theorem Valid.applyRef (valid : s.Valid) (sets : s.deletes node value = false)
    (checked : s.checkApply caps node name value = .ok ())
    (accepted : s.runOnSetCallbacks node name (s.get node name) (some value) = true) :
    ∃ entry, entry.param.value = value ∧
      s.Writes (s.applyRef caps node name value).2 node name (some entry) := by
  rw [ParameterServer.applyRef, sets, checked, accepted]
  cases found : s.findIndex node name with
  | some slot =>
    obtain ⟨entry, held, _⟩ := KeyedSlots.find_eq_some found
    refine ⟨{ entry with param := { entry.param with value := value } }, rfl, ?_⟩
    simp only [Bool.false_eq_true, if_false, Bool.not_true, Option.isSome_some, if_true]
    rw [setRef_found found checked]
    exact (valid.setValue found held value).noteEvent .changed
  | none =>
    have missing := entryOf_eq_none_iff.mpr found
    obtain ⟨_, room, short⟩ := (checkApply_missing missing value).mp checked
    rw [valid.counted, capacity, ← KeyedSlots.free_isSome_iff] at room
    obtain ⟨slot, empty⟩ := Option.isSome_iff_exists.mp room
    refine ⟨⟨node, ⟨name, value⟩, none⟩, rfl, ?_⟩
    simp only [Bool.false_eq_true, if_false, Bool.not_true, Option.isSome_none]
    rw [declareRef_missing found short, findEmptySlot, empty]
    exact (valid.place missing empty value).noteEvent .new

theorem applyDelete_missing (missing : s.entryOf node name = none) :
    s.applyDelete caps node name = (.error .notFound, s) := by
  rw [applyDelete, missing]

theorem Valid.applyDelete (valid : s.Valid) (held : s.entryOf node name = some entry)
    (writable : entry.descriptor.any ParameterDescriptor.readOnly = false)
    (accepted : s.runOnSetCallbacks node name (s.get node name) none = true) :
    s.Writes (s.applyDelete caps node name).2 node name none := by
  simp only [ParameterServer.applyDelete, held, writable, accepted, Bool.false_eq_true, if_false,
    Bool.not_true]
  exact valid.remove held

theorem writable_of_checked (held : s.entryOf node name = some entry)
    (checked : s.checkApply caps node name value = .ok ()) :
    entry.descriptor.any ParameterDescriptor.readOnly = false := by
  rw [checkApply, held] at checked
  have allowed : checkSetExisting entry value = .ok () := checked
  unfold checkSetExisting at allowed
  split at allowed
  next desc described =>
    rw [described]
    split at allowed
    · cases allowed
    next writable => simpa using writable
  next undescribed =>
    rw [undescribed]
    rfl

end

end ParameterServer

end NanoRos
