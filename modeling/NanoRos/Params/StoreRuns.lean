import NanoRos.Lib.Runs
import NanoRos.Params.Edits

/-! Runs of the store: any calls in any order, from any table. -/

namespace NanoRos

inductive StoreCall where
  | write (node : NodeKey) (name : String) (w : ParamWrite)
  | declareParameter (node : NodeKey) (descriptor : ParameterDescriptor)
      (initialValue : Option ParameterValue)
  | setOrDeclare (node : NodeKey) (name : String) (value : ParameterValue)
  | applyAtomically (node : NodeKey) (items : List ParameterServer.SetItem)
  | setParameterDescription (node : NodeKey) (name description additionalConstraints : String)
  | setParameterReadOnly (node : NodeKey) (name : String) (readOnly : Bool)
  | setParameterIntegerRange (node : NodeKey) (name : String) (min max step : Int64)
  | setParameterFloatRange (node : NodeKey) (name : String) (min max step : F64)
  | takeTruncatedDescriptions
  | setAllowUndeclared (node : NodeKey) (on : Bool)
  | setDeleteOnNotSet (node : NodeKey) (on : Bool)
  | addOnSetParametersCallback (slot : OnSetCallbackSlot)
  | removeOnSetParametersCallback (handle : Nat)
  | setParameterEvents (node : NodeKey) (on : Bool)
  | popInitialParameterEvent
  | popParameterEvent
  | takeParameterEventsDropped

namespace StoreCall

/-- Whether the call went through, and the store after it. -/
def perform (caps : ParamCaps) (texts : DescriptionCaps) (s : ParameterServer) :
    StoreCall → Bool × ParameterServer
  | .write node name w => w.perform caps s node name
  | .declareParameter node descriptor initialValue =>
    let (verdict, s) := s.declareParameter caps node descriptor initialValue
    (verdict.isOk, s)
  | .setOrDeclare node name value =>
    let (verdict, s) := s.setOrDeclare caps node name value
    (verdict.isOk, s)
  | .applyAtomically node items =>
    let (verdict, s) := s.applyAtomically caps node items
    (verdict.isOk, s)
  | .setParameterDescription node name description additionalConstraints =>
    s.setParameterDescription caps texts node name description additionalConstraints
  | .setParameterReadOnly node name readOnly => s.setParameterReadOnly caps node name readOnly
  | .setParameterIntegerRange node name min max step =>
    s.setParameterIntegerRange caps node name min max step
  | .setParameterFloatRange node name min max step =>
    s.setParameterFloatRange caps node name min max step
  | .takeTruncatedDescriptions => (true, s.takeTruncatedDescriptions.2)
  | .setAllowUndeclared node on => (true, s.setAllowUndeclared node on)
  | .setDeleteOnNotSet node on => (true, s.setDeleteOnNotSet node on)
  | .addOnSetParametersCallback slot =>
    let (handle, s) := s.addOnSetParametersCallback slot
    (handle.isSome, s)
  | .removeOnSetParametersCallback handle => s.removeOnSetParametersCallback handle
  | .setParameterEvents node on => (true, s.setParameterEvents node on)
  | .popInitialParameterEvent => (true, s.popInitialParameterEvent.2)
  | .popParameterEvent => (true, s.popParameterEvent.2)
  | .takeParameterEventsDropped => (true, s.takeParameterEventsDropped.2)

/-- What the call declares together with a descriptor. -/
def declaration : StoreCall → Option (NodeKey × String × ParameterValue × ParameterDescriptor)
  | .write node name (.declare value (some descriptor)) => some (node, name, value, descriptor)
  | .declareParameter node descriptor initialValue =>
    some (node, descriptor.name, initialValue.getD .notSet, descriptor)
  | _ => none

/-- The owner's own set of a parameter. -/
def ownersSet : StoreCall → Bool
  | .write _ _ (.setLocal _) => true
  | _ => false

end StoreCall

/-- Every call is taken; what it answers is the caller's. -/
def storeStep (caps : ParamCaps) (texts : DescriptionCaps) (s : ParameterServer)
    (call : StoreCall) : Option ParameterServer := some (call.perform caps texts s).2

namespace ParameterServer

/-- Every parameter with a descriptor holds a value it describes. -/
def AllFit (s : ParameterServer) : Prop := ∀ entry, some entry ∈ s.entries → entry.Fits

/-- Steps that put one entry at a time and leave what fits its descriptor so. -/
inductive Evolves : ParameterServer → ParameterServer → Prop
  | frame {s next : ParameterServer} (entries : next.entries = s.entries)
      (count : next.count = s.count) : Evolves s next
  | edit {s next : ParameterServer} {node : NodeKey} {name : String}
      {new : Option ParameterEntry} (edits : s.Edits next node name new)
      (keeps : s.Keeps node name new) : Evolves s next
  | reported (s : ParameterServer) : Evolves s s.takeTruncatedDescriptions.2
  | trans {s mid next : ParameterServer} (first : Evolves s mid) (second : Evolves mid next) :
      Evolves s next

section

variable {caps : ParamCaps} {texts : DescriptionCaps} {s next : ParameterServer}
  {node : NodeKey} {name : String} {new : Option ParameterEntry}

theorem mem_of_entryOf {entry : ParameterEntry} (held : s.entryOf node name = some entry) :
    some entry ∈ s.entries := by
  rw [entryOf, KeyedSlots.lookup, Option.bind_eq_some_iff] at held
  rcases held with ⟨i, _, here⟩
  rw [Option.bind_eq_some_iff] at here
  rcases here with ⟨slot, at_, is⟩
  cases is
  exact List.mem_of_getElem? at_

theorem target_of_slotOf (distinct : KeyedSlots.Distinct ParameterEntry.key s.entries)
    {slot : Nat} (lands : s.slotOf node name = some slot) :
    KeyedSlots.Target ParameterEntry.key s.entries (node, name) slot := by
  cases found : s.findIndex node name with
  | some idx =>
    rw [slotOf, found, Option.some_or] at lands
    cases lands
    exact KeyedSlots.target_of_find distinct found
  | none =>
    rw [slotOf, found, Option.none_or] at lands
    exact KeyedSlots.target_of_free found lands

theorem Edits.valid (edits : s.Edits next node name new) (valid : s.Valid) : next.Valid := by
  refine ⟨edits.counted valid.counted, ?_⟩
  rcases edits.placed with ⟨slot, lands, entries⟩
  rw [entries]
  exact (target_of_slotOf valid.distinct lands).distinct_set valid.distinct edits.keyed

theorem Edits.allFit (edits : s.Edits next node name new) (fit : s.AllFit)
    (sound : ∀ entry, new = some entry → entry.Fits) : next.AllFit := by
  rcases edits.placed with ⟨slot, _, entries⟩
  intro entry member
  rw [entries] at member
  rcases List.mem_or_eq_of_mem_set member with old | here
  · exact fit entry old
  · exact sound entry here.symm

theorem Edits.mem {entry : ParameterEntry} (edits : s.Edits next node name (some entry))
    (distinct : KeyedSlots.Distinct ParameterEntry.key s.entries) :
    some entry ∈ next.entries := by
  rcases edits.placed with ⟨slot, lands, entries⟩
  rw [entries]
  exact List.mem_set (target_of_slotOf distinct lands).inside (some entry)

theorem counted_frame (entries : next.entries = s.entries) (count : next.count = s.count)
    (counted : s.Counted) : next.Counted := by
  rw [Counted, entries, count]
  exact counted

/-! Reporting the cut texts. -/

theorem entries_takeTruncatedDescriptions (s : ParameterServer) :
    s.takeTruncatedDescriptions.2.count = s.count ∧ ∃ clear : ParameterEntry → ParameterEntry,
        (∀ entry, (clear entry).key = entry.key ∧ (entry.Fits → (clear entry).Fits)) ∧
        s.takeTruncatedDescriptions.2.entries = s.entries.map (Option.map clear) := by
  unfold takeTruncatedDescriptions
  split
  · refine ⟨rfl, id, fun entry => ⟨rfl, id⟩, ?_⟩
    simp
  · refine ⟨rfl, _, ?_, rfl⟩
    intro entry
    refine ⟨rfl, ?_⟩
    intro fits desc described static
    rw [Option.map_eq_some_iff] at described
    rcases described with ⟨before, held, rfl⟩
    exact fits before held static

theorem occupied_map (clear : ParameterEntry → ParameterEntry)
    (slots : List (Option ParameterEntry)) :
    KeyedSlots.occupied (slots.map (Option.map clear)) = KeyedSlots.occupied slots := by
  rw [KeyedSlots.occupied, List.countP_map, KeyedSlots.occupied]
  congr 1
  funext slot
  cases slot <;> rfl

theorem distinct_map {clear : ParameterEntry → ParameterEntry}
    (same : ∀ entry, (clear entry).key = entry.key) {slots : List (Option ParameterEntry)}
    (distinct : KeyedSlots.Distinct ParameterEntry.key slots) :
    KeyedSlots.Distinct ParameterEntry.key (slots.map (Option.map clear)) := by
  intro i j a b left right agree
  rw [List.getElem?_map, Option.map_eq_some_iff] at left right
  rcases left with ⟨p, atI, isA⟩
  rcases right with ⟨q, atJ, isB⟩
  rw [Option.map_eq_some_iff] at isA isB
  rcases isA with ⟨a', rfl, rfl⟩
  rcases isB with ⟨b', rfl, rfl⟩
  rw [same, same] at agree
  exact distinct i j a' b' atI atJ agree

/-! What the steps keep. -/

namespace Evolves

theorem counted (evolves : s.Evolves next) (start : s.Counted) : next.Counted := by
  induction evolves with
  | frame entries count => exact counted_frame entries count start
  | edit edits _ => exact edits.counted start
  | reported s =>
    rcases entries_takeTruncatedDescriptions s with ⟨count, clear, _, entries⟩
    rw [Counted, count, entries, occupied_map]
    exact start
  | trans _ _ first second => exact second (first start)

theorem valid (evolves : s.Evolves next) (start : s.Valid) : next.Valid := by
  refine ⟨evolves.counted start.counted, ?_⟩
  induction evolves with
  | frame entries count =>
    rw [entries]
    exact start.distinct
  | edit edits _ => exact (edits.valid start).distinct
  | reported s =>
    rcases entries_takeTruncatedDescriptions s with ⟨_, clear, same, entries⟩
    rw [entries]
    exact distinct_map (fun entry => (same entry).1) start.distinct
  | trans early _ first second => exact second ⟨early.counted start.counted, first start⟩

theorem allFit (evolves : s.Evolves next) (start : s.AllFit) : next.AllFit := by
  induction evolves with
  | frame entries count =>
    intro entry member
    rw [entries] at member
    exact start entry member
  | edit edits keeps =>
    apply edits.allFit start
    apply keeps
    exact fun old held => start old (mem_of_entryOf held)
  | reported s =>
    rcases entries_takeTruncatedDescriptions s with ⟨_, clear, same, entries⟩
    intro entry member
    rw [entries, List.mem_map] at member
    rcases member with ⟨slot, listed, cleared⟩
    rw [Option.map_eq_some_iff] at cleared
    rcases cleared with ⟨old, rfl, rfl⟩
    exact (same old).2 (start old listed)
  | trans _ _ first second => exact second (first start)

end Evolves

variable {outcome : Bool × ParameterServer}

theorem Touched.evolves (touched : s.Touched node name (s.Keeps node name) outcome) :
    s.Evolves outcome.2 := by
  cases touched with
  | refused => exact .frame rfl rfl
  | put edits keeps => exact .edit edits keeps

theorem Touched.counted {holds : Option ParameterEntry → Prop}
    (touched : s.Touched node name holds outcome) (start : s.Counted) : outcome.2.Counted := by
  cases touched with
  | refused => exact start
  | put edits _ => exact edits.counted start

theorem evolves_applyAll (items : List SetItem) : s.Evolves (s.applyAll caps node items) := by
  induction items generalizing s with
  | nil => exact .frame rfl rfl
  | cons item items ih =>
    cases item with
    | none => exact ih
    | some pair => exact .trans (@touched_apply caps s node pair.1 pair.2).evolves ih

theorem evolves_popInitialLoop (turns : Nat) : s.Evolves (s.popInitialLoop turns).2 := by
  induction turns generalizing s with
  | zero => exact .frame rfl rfl
  | succ turns ih =>
    rw [popInitialLoop]
    split
    · exact .frame rfl rfl
    · split
      · exact .frame rfl rfl
      · split
        · exact .frame rfl rfl
        · exact .trans (@Evolves.frame s (s.endInitial _) rfl rfl) ih

theorem evolves_setParameterEvents (on : Bool) : s.Evolves (s.setParameterEvents node on) := by
  unfold setParameterEvents
  cases on
  · cases s.eventsEnabled.get node <;> exact .frame rfl rfl
  · cases s.eventsEnabled.get node <;> exact .frame rfl rfl

theorem evolves_popParameterEvent : s.Evolves s.popParameterEvent.2 := by
  unfold popParameterEvent
  split <;> exact .frame rfl rfl

/-- Refused, the store is left alone; and either way it evolves. -/
structure Settles (s : ParameterServer) (outcome : Bool × ParameterServer) : Prop where
  refused : outcome.1 = false → outcome.2 = s
  evolves : s.Evolves outcome.2

theorem Touched.refused' {holds : Option ParameterEntry → Prop}
    (touched : s.Touched node name holds outcome) (fails : outcome.1 = false) : outcome.2 = s := by
  cases touched with
  | refused => rfl
  | put => cases fails

theorem Touched.settles (touched : s.Touched node name (s.Keeps node name) outcome) :
    s.Settles outcome :=
  ⟨touched.refused', touched.evolves⟩

theorem Evolves.settles (evolves : s.Evolves next) : s.Settles (true, next) := by
  refine ⟨?_, evolves⟩
  intro fails
  cases fails

theorem settles_refused (s : ParameterServer) : s.Settles (false, s) :=
  ⟨fun _ => rfl, .frame rfl rfl⟩

theorem settles_applyAtomically (items : List SetItem) :
    s.Settles ((s.applyAtomically caps node items).1.isOk,
      (s.applyAtomically caps node items).2) := by
  unfold applyAtomically
  split
  · exact settles_refused s
  · exact (evolves_applyAll items).settles

theorem settles_addOnSetParametersCallback (slot : OnSetCallbackSlot) :
    s.Settles ((s.addOnSetParametersCallback slot).1.isSome,
      (s.addOnSetParametersCallback slot).2) := by
  unfold addOnSetParametersCallback
  split
  · exact settles_refused s
  · exact Evolves.settles (.frame rfl rfl)

theorem settles_removeOnSetParametersCallback (handle : Nat) :
    s.Settles (s.removeOnSetParametersCallback handle) := by
  unfold removeOnSetParametersCallback
  split
  · exact Evolves.settles (.frame rfl rfl)
  · exact settles_refused s

/-! The table as a map. -/

theorem Edits.length (edits : s.Edits next node name new) :
    next.entries.length = s.entries.length := by
  rcases edits.placed with ⟨slot, _, entries⟩
  rw [entries, List.length_set]

theorem Evolves.length (evolves : s.Evolves next) : next.entries.length = s.entries.length := by
  induction evolves with
  | frame entries _ => rw [entries]
  | edit edits _ => exact edits.length
  | reported s =>
    rcases entries_takeTruncatedDescriptions s with ⟨_, clear, _, entries⟩
    rw [entries, List.length_map]
  | trans _ _ first second => rw [second, first]

theorem Touched.keeps {holds : Option ParameterEntry → Prop}
    (touched : s.Touched node name holds outcome) (valid : s.Valid) :
    outcome.2.Valid ∧ outcome.2.entries.length = s.entries.length := by
  cases touched with
  | refused => exact ⟨valid, rfl⟩
  | put edits _ => exact ⟨edits.valid valid, edits.length⟩

theorem Touched.entryOf {holds : Option ParameterEntry → Prop}
    (touched : s.Touched node name holds outcome) (valid : s.Valid) {other : NodeKey × String}
    (apart : other ≠ (node, name)) :
    outcome.2.entryOf other.1 other.2 = s.entryOf other.1 other.2 := by
  cases touched with
  | refused => rfl
  | put edits _ =>
    rcases edits.placed with ⟨slot, lands, entries⟩
    have target := target_of_slotOf valid.distinct lands
    simp [ParameterServer.entryOf, entries, target.lookup_set valid.distinct edits.keyed, apart]

theorem touched_write (w : ParamWrite) :
    ∃ holds, s.Touched node name holds (w.perform caps s node name) := by
  cases w with
  | declare value descriptor => exact ⟨_, touched_declare⟩
  | set value => exact ⟨_, touched_set⟩
  | apply value => exact ⟨_, touched_apply⟩
  | applyStaged value =>
    rw [ParamWrite.perform, applyStaged_eq_apply]
    exact ⟨_, touched_apply⟩
  | unset => exact ⟨_, touched_unset⟩
  | remove => exact ⟨_, touched_remove⟩
  | setLocal value => exact ⟨_, touched_setLocal⟩

end

end ParameterServer

namespace StoreCall

open ParameterServer

variable {caps : ParamCaps} {texts : DescriptionCaps} {s : ParameterServer} {call : StoreCall}

variable {node : NodeKey} {name : String}

theorem touched_of_declaration {value : ParameterValue} {descriptor : ParameterDescriptor}
    (declares : call.declaration = some (node, name, value, descriptor)) :
    s.Touched node name (fun new => new = some ⟨node, ⟨name, value⟩, some descriptor⟩ ∧
      s.Admits caps node name value (some descriptor)) (call.perform caps texts s) := by
  unfold declaration at declares
  split at declares
  · cases declares
    exact touched_declare
  · cases declares
    exact touched_declareParameter
  · cases declares

theorem admitted_of_declaration {value : ParameterValue} {descriptor : ParameterDescriptor}
    (declares : call.declaration = some (node, name, value, descriptor))
    (admitted : s.Admits caps node name value (some descriptor)) :
    (call.perform caps texts s).1 = true := by
  unfold declaration at declares
  split at declares
  · cases declares
    simp [perform, ParamWrite.perform, tryDeclareRef_admitted admitted, Except.isOk, Except.toBool]
  · cases declares
    simp [perform, declareParameter_admitted admitted, Except.isOk, Except.toBool]
  · cases declares

theorem settles_write {w : ParamWrite}
    (undescribed : (StoreCall.write node name w).declaration = none)
    (remote : (StoreCall.write node name w).ownersSet = false) :
    s.Settles (w.perform caps s node name) := by
  cases w with
  | declare value descriptor =>
    cases descriptor with
    | none => exact (@touched_declareRef caps s node name value).settles
    | some descriptor => cases undescribed
  | set value => exact touched_set.settles
  | apply value => exact touched_apply.settles
  | applyStaged value =>
    rw [ParamWrite.perform, applyStaged_eq_apply]
    exact touched_apply.settles
  | unset => exact touched_unset.settles
  | remove => exact touched_remove.settles
  | setLocal value => cases remote

theorem settles (undescribed : call.declaration = none) (remote : call.ownersSet = false) :
    s.Settles (call.perform caps texts s) := by
  cases call with
  | write node name w => exact settles_write undescribed remote
  | declareParameter node descriptor initialValue => cases undescribed
  | setOrDeclare node name value => exact touched_orDeclare.settles
  | applyAtomically node items => exact settles_applyAtomically items
  | setParameterDescription node name description additionalConstraints =>
    exact touched_setParameterDescription.settles
  | setParameterReadOnly node name readOnly => exact touched_setParameterReadOnly.settles
  | setParameterIntegerRange node name min max step
  | setParameterFloatRange node name min max step => exact touched_setParameterRange.settles
  | takeTruncatedDescriptions => exact (Evolves.reported s).settles
  | setAllowUndeclared node on | setDeleteOnNotSet node on => exact Evolves.settles (.frame rfl rfl)
  | addOnSetParametersCallback slot => exact settles_addOnSetParametersCallback slot
  | removeOnSetParametersCallback handle => exact settles_removeOnSetParametersCallback handle
  | setParameterEvents node on => exact (evolves_setParameterEvents on).settles
  | popInitialParameterEvent => exact (evolves_popInitialLoop 257).settles
  | popParameterEvent => exact evolves_popParameterEvent.settles
  | takeParameterEventsDropped => exact Evolves.settles (.frame rfl rfl)

theorem touched_of_ownersSet (own : call.ownersSet = true) :
    ∃ node name, s.Touched node name (fun _ => True) (call.perform caps texts s) := by
  unfold ownersSet at own
  split at own
  · exact ⟨_, _, touched_setLocal⟩
  · cases own

theorem counted (start : s.Counted) : (call.perform caps texts s).2.Counted := by
  cases declares : call.declaration with
  | some given => exact (touched_of_declaration declares).counted start
  | none =>
    cases own : call.ownersSet with
    | false => exact (settles declares own).evolves.counted start
    | true =>
      rcases touched_of_ownersSet own with ⟨node, name, touched⟩
      exact touched.counted start

theorem refused (fails : (call.perform caps texts s).1 = false) :
    (call.perform caps texts s).2 = s := by
  cases declares : call.declaration with
  | some given => exact (touched_of_declaration declares).refused' fails
  | none =>
    cases own : call.ownersSet with
    | false => exact (settles declares own).refused fails
    | true =>
      rcases touched_of_ownersSet own with ⟨node, name, touched⟩
      exact touched.refused' fails

theorem keeps (valid : s.Valid) : (call.perform caps texts s).2.Valid ∧
    (call.perform caps texts s).2.entries.length = s.entries.length := by
  cases declares : call.declaration with
  | some given => exact (touched_of_declaration declares).keeps valid
  | none =>
    cases own : call.ownersSet with
    | false =>
      have evolves := (@settles caps texts s call declares own).evolves
      exact ⟨evolves.valid valid, evolves.length⟩
    | true =>
      rcases touched_of_ownersSet own with ⟨node, name, touched⟩
      exact touched.keeps valid

end StoreCall

/-! The runs. -/

theorem ParameterServer.valid_newIn_replicate (slots : Nat) :
    (newIn (List.replicate slots none)).Valid where
  counted := rfl
  distinct := by
    intro i j a b held
    rw [newIn, List.getElem?_replicate] at held
    split at held <;> cases held

theorem counted_newIn (entries : List (Option ParameterEntry)) :
    (ParameterServer.newIn entries).Counted := rfl

theorem counted_of_run {caps : ParamCaps} {texts : DescriptionCaps}
    {entries : List (Option ParameterEntry)} {calls : List StoreCall} {s : ParameterServer}
    (reached : run (storeStep caps texts) (.newIn entries) calls = some s) : s.Counted := by
  refine run_invariant ?_ _ s calls (counted_newIn entries) reached
  intro s call next counted stepped
  cases stepped
  exact StoreCall.counted counted

/-- After any calls from an empty table the store is a map of at most so many parameters, each
under one name; a call that is refused leaves it as it is, and a write touches no other parameter. -/
theorem store_maps (caps : ParamCaps) (texts : DescriptionCaps) (slots : Nat)
    (calls : List StoreCall) : ∃ s,
      run (storeStep caps texts) (.newIn (List.replicate slots none)) calls = some s ∧
      s.Valid ∧ s.count ≤ slots ∧
      (∀ call : StoreCall, (call.perform caps texts s).1 = false →
        (call.perform caps texts s).2 = s) ∧
      ∀ (node : NodeKey) (name : String) (w : ParamWrite) (other : NodeKey × String),
        other ≠ (node, name) →
          (w.perform caps s node name).2.entryOf other.1 other.2 = s.entryOf other.1 other.2 := by
  have goes (s : ParameterServer) : ∃ last, run (storeStep caps texts) s calls = some last := by
    induction calls generalizing s with
    | nil => exact ⟨s, rfl⟩
    | cons call calls ih => exact ih (call.perform caps texts s).2
  have keeps : ∀ (s : ParameterServer) (call : StoreCall) (next : ParameterServer),
      s.Valid ∧ s.entries.length = slots → storeStep caps texts s call = some next →
        next.Valid ∧ next.entries.length = slots := by
    intro s call next sized stepped
    cases stepped
    have kept := @StoreCall.keeps caps texts s call sized.1
    exact ⟨kept.1, kept.2.trans sized.2⟩
  rcases goes (.newIn (List.replicate slots none)) with ⟨s, reached⟩
  have sized := run_invariant keeps _ s calls
    ⟨ParameterServer.valid_newIn_replicate slots, List.length_replicate⟩ reached
  refine ⟨s, reached, sized.1, ?_, fun call => StoreCall.refused, ?_⟩
  · calc
      s.count = KeyedSlots.occupied s.entries := sized.1.counted
      _ ≤ s.entries.length := List.countP_le_length
      _ = slots := sized.2
  · intro node name w other apart
    rcases @ParameterServer.touched_write caps s node name w with ⟨_, touched⟩
    exact touched.entryOf sized.1 apart

end NanoRos
