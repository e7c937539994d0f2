import NanoRos.Params.Descriptors
import NanoRos.Params.Outcomes

/-! What each call of the store does to the table: nothing, or one entry put in the slot of the
parameter it names. -/

namespace NanoRos

namespace ParameterEntry

/-- A value the entry's descriptor describes: unset, or of its type and in its range. -/
def Fits (entry : ParameterEntry) : Prop :=
  ∀ desc, entry.descriptor = some desc → desc.dynamicTyping = false → entry.param.value = .notSet ∨
      entry.param.value.paramType = desc.paramType ∧ desc.range.contains entry.param.value = true

def withValue (entry : ParameterEntry) (value : ParameterValue) : ParameterEntry :=
  { entry with param := { entry.param with value := value } }

variable {entry : ParameterEntry} {value : ParameterValue}

theorem fits_of_undescribed (undescribed : entry.descriptor = none) : entry.Fits := by
  intro desc described
  rw [undescribed] at described
  cases described

theorem fits_unset (entry : ParameterEntry) : (entry.withValue .notSet).Fits :=
  fun _ _ _ => Or.inl rfl

theorem fits_of_checked (checked : ParameterServer.checkSetExisting entry value = .ok ()) :
    (entry.withValue value).Fits := by
  intro desc described static
  have held : entry.descriptor = some desc := described
  rw [ParameterServer.checkSetExisting, held] at checked
  dsimp only at checked
  rw [static] at checked
  split at checked
  · cases checked
  · split at checked
    · cases checked
    next typed =>
      split at checked
      · cases checked
      next ranged =>
        right
        constructor
        · have same : desc.paramType = value.paramType := by simpa using typed
          exact same.symm
        · have inside : desc.range.contains value = true := by
            simpa [ParameterDescriptor.validateRange] using ranged
          exact inside

end ParameterEntry

namespace ParameterServer

/-- The count is that of the taken slots. -/
def Counted (s : ParameterServer) : Prop := s.count = KeyedSlots.occupied s.entries

/-- One entry is put where the parameter is, or would be, and the count follows. -/
structure Edits (s next : ParameterServer) (node : NodeKey) (name : String)
    (new : Option ParameterEntry) : Prop where
  placed : ∃ slot, s.slotOf node name = some slot ∧ next.entries = s.entries.set slot new
  keyed : ∀ entry, new = some entry → entry.key = (node, name)
  counted : s.Counted → next.Counted

/-- A call that is refused leaves the store alone; one that is not puts an entry. -/
inductive Touched (s : ParameterServer) (node : NodeKey) (name : String)
    (holds : Option ParameterEntry → Prop) : Bool × ParameterServer → Prop
  | refused : Touched s node name holds (false, s)
  | put {next : ParameterServer} {new : Option ParameterEntry}
      (edits : s.Edits next node name new) (sound : holds new) :
      Touched s node name holds (true, next)

/-- A parameter that fits its descriptor is left so. -/
def Keeps (s : ParameterServer) (node : NodeKey) (name : String)
    (new : Option ParameterEntry) : Prop :=
  (∀ old, s.entryOf node name = some old → old.Fits) → ∀ entry, new = some entry → entry.Fits

section

variable {caps : ParamCaps} {s next : ParameterServer} {node : NodeKey} {name : String}
  {new : Option ParameterEntry}

theorem Touched.mono {p q : Option ParameterEntry → Prop} {outcome : Bool × ParameterServer}
    (touched : s.Touched node name p outcome) (weaker : ∀ new, p new → q new) :
    s.Touched node name q outcome := by
  cases touched with
  | refused => exact .refused
  | put edits sound => exact .put edits (weaker _ sound)

theorem Edits.noteEvent (edits : s.Edits next node name new) (kind : ParameterEventKind) :
    s.Edits (next.noteEvent caps node kind name) node name new := by
  rcases noteEvent_frame caps next node kind name with ⟨log, dropped, logged⟩
  rw [logged]
  exact ⟨edits.placed, edits.keyed, edits.counted⟩

variable {slot : Nat} {entry : ParameterEntry} {value : ParameterValue}

section

variable (found : s.findIndex node name = some slot)
include found

theorem key_of_found (held : s.entries[slot]? = some (some entry)) :
    entry.key = (node, name) := by
  rcases KeyedSlots.find_eq_some found with ⟨other, here, key⟩
  rw [held] at here
  cases here
  exact key

theorem edits_replace {old : ParameterEntry} (held : s.entries[slot]? = some (some old))
    (same : entry.key = old.key) (entries : next.entries = s.entries.set slot (some entry))
    (count : next.count = s.count) :
    s.Edits next node name (some entry) where
  placed := ⟨slot, slotOf_of_find found, entries⟩
  keyed := by
    intro placed is
    cases is
    exact same.trans (key_of_found found held)
  counted := by
    intro counted
    have occupied := KeyedSlots.occupied_set held (some entry)
    rw [Counted] at counted ⊢
    rw [entries, count, counted]
    simpa using occupied.symm

theorem edits_setValue (held : s.entries[slot]? = some (some entry)) (value : ParameterValue) :
    s.Edits (s.setValueAt slot value) node name (some (entry.withValue value)) := by
  rw [setValueAt_eq held]
  exact edits_replace found held rfl rfl rfl

theorem edits_setDescriptor (held : s.entries[slot]? = some (some entry))
    (desc : ParameterDescriptor) :
    s.Edits (s.setDescriptorAt slot entry desc) node name
      (some { entry with descriptor := some desc }) :=
  edits_replace found held rfl rfl rfl

end

theorem edits_place (missing : s.findIndex node name = none) (free : s.findEmptySlot = some slot)
    (same : entry.key = (node, name)) (entries : next.entries = s.entries.set slot (some entry))
    (count : next.count = s.count + 1) : s.Edits next node name (some entry) where
  placed := ⟨slot, slotOf_of_free missing free, entries⟩
  keyed := by
    intro placed is
    cases is
    exact same
  counted := by
    intro counted
    have occupied := KeyedSlots.occupied_set (KeyedSlots.free_eq_some free) (some entry)
    rw [Counted] at counted ⊢
    rw [entries, count, counted]
    simpa using occupied.symm

theorem edits_remove (found : s.findIndex node name = some slot) :
    s.Edits { s with entries := s.entries.set slot none, count := s.count - 1 } node name
      none where
  placed := ⟨slot, slotOf_of_find found, rfl⟩
  keyed := by
    intro entry impossible
    cases impossible
  counted := by
    intro counted
    rcases KeyedSlots.find_eq_some found with ⟨entry, held, _⟩
    have occupied := KeyedSlots.occupied_set held (none : Option ParameterEntry)
    simp only [Option.isSome_some, Option.isSome_none, Bool.toNat_true, Bool.toNat_false]
      at occupied
    show s.count - 1 = KeyedSlots.occupied (s.entries.set slot none)
    rw [Counted] at counted
    omega

/-! Call by call. -/

/-- The declaration the store takes: a new name that fits, a free slot, a consistent range. -/
def Admits (caps : ParamCaps) (s : ParameterServer) (node : NodeKey) (name : String)
    (value : ParameterValue) (descriptor : Option ParameterDescriptor) : Prop :=
  s.findIndex node name = none ∧ declarationConsistency descriptor value = .ok () ∧
    s.findEmptySlot.isSome = true ∧ byteLen name ≤ caps.maxParamNameLen

theorem touched_declare {descriptor : Option ParameterDescriptor} :
    s.Touched node name (fun new => new = some ⟨node, ⟨name, value⟩, descriptor⟩ ∧
        s.Admits caps node name value descriptor)
      ((s.tryDeclareRef caps node name value descriptor).1.isOk,
        (s.tryDeclareRef caps node name value descriptor).2) := by
  unfold tryDeclareRef
  split
  · exact .refused
  next absent =>
    have missing : s.findIndex node name = none := by simpa using absent
    split
    · exact .refused
    next consistent =>
      split
      · exact .refused
      next slot free =>
        split
        · exact .refused
        next short =>
          rcases noteDescriptor_frame s descriptor with ⟨pending, noted⟩
          rw [noted]
          refine .put (Edits.noteEvent (edits_place missing free rfl rfl rfl) .new) ⟨rfl, ?_⟩
          exact ⟨missing, consistent, by rw [free]; rfl, Nat.not_lt.mp short⟩

theorem touched_declareParameter {descriptor : ParameterDescriptor}
    {initial : Option ParameterValue} :
    s.Touched node descriptor.name
      (fun new => new = some ⟨node, ⟨descriptor.name, initial.getD .notSet⟩, some descriptor⟩ ∧
        s.Admits caps node descriptor.name (initial.getD .notSet) (some descriptor))
      ((s.declareParameter caps node descriptor initial).1.isOk,
        (s.declareParameter caps node descriptor initial).2) := by
  unfold declareParameter
  dsimp only
  split
  · exact .refused
  next absent =>
    have missing : s.findIndex node descriptor.name = none := by simpa using absent
    split
    · exact .refused
    next consistent =>
      have agreed : declarationConsistency (some descriptor) (initial.getD .notSet) = .ok () := by
        cases verdict : declarationConsistency (some descriptor) (initial.getD .notSet) with
        | ok => rfl
        | error e =>
          rw [verdict] at consistent
          exact absurd rfl consistent
      split
      · exact .refused
      next slot free =>
        split
        · exact .refused
        next short =>
          rcases noteDescriptor_frame s (some descriptor) with ⟨pending, noted⟩
          rw [noted]
          refine .put (edits_place missing free rfl rfl rfl) ⟨rfl, ?_⟩
          exact ⟨missing, agreed, by rw [free]; rfl, Nat.not_lt.mp short⟩

theorem tryDeclareRef_admitted {descriptor : Option ParameterDescriptor}
    (admitted : s.Admits caps node name value descriptor) :
    (s.tryDeclareRef caps node name value descriptor).1 = .ok () := by
  rcases admitted with ⟨missing, consistent, free, short⟩
  rcases Option.isSome_iff_exists.mp free with ⟨slot, free⟩
  rw [tryDeclareRef, missing, consistent, free]
  simp [Nat.not_lt.mpr short]

theorem declareParameter_admitted {descriptor : ParameterDescriptor}
    {initial : Option ParameterValue}
    (admitted : s.Admits caps node descriptor.name (initial.getD .notSet) (some descriptor)) :
    (s.declareParameter caps node descriptor initial).1 = .ok () := by
  rcases admitted with ⟨missing, consistent, free, short⟩
  rcases Option.isSome_iff_exists.mp free with ⟨slot, free⟩
  simp [declareParameter, missing, consistent, free, Nat.not_lt.mpr short, Except.isOk,
    Except.toBool]

theorem touched_set :
    s.Touched node name (s.Keeps node name) ((s.setRef caps node name value).1.isOk,
      (s.setRef caps node name value).2) := by
  unfold setRef
  split
  · exact .refused
  next slot found =>
    rcases KeyedSlots.find_eq_some found with ⟨entry, held, _⟩
    rw [held]
    dsimp only [Option.bind_some, id]
    split
    · exact .refused
    next checked =>
      refine .put ((edits_setValue found held value).noteEvent .changed) ?_
      intro _ placed is
      cases is
      exact ParameterEntry.fits_of_checked checked

theorem touched_unset :
    s.Touched node name (s.Keeps node name) ((s.unset caps node name).1.isOk,
      (s.unset caps node name).2) := by
  unfold ParameterServer.unset
  split
  · exact .refused
  next slot found =>
    rcases KeyedSlots.find_eq_some found with ⟨entry, held, _⟩
    rw [held]
    dsimp only [Option.bind_some, id]
    split
    · exact .refused
    · refine .put ((edits_setValue found held .notSet).noteEvent .changed) ?_
      intro _ placed is
      cases is
      exact entry.fits_unset

theorem touched_setLocal :
    s.Touched node name (fun _ => True) ((s.setLocal caps node name value).1.isOk,
      (s.setLocal caps node name value).2) := by
  unfold ParameterServer.setLocal
  split
  · exact .refused
  next slot found =>
    rcases KeyedSlots.find_eq_some found with ⟨entry, held, _⟩
    rw [held]
    dsimp only [Option.bind_some, id]
    split
    · exact .refused
    · split
      · exact .refused
      · exact .put ((edits_setValue found held value).noteEvent .changed) trivial

theorem touched_remove :
    s.Touched node name (s.Keeps node name) (s.remove caps node name) := by
  unfold ParameterServer.remove
  split
  next slot found =>
    refine .put ((edits_remove found).noteEvent .deleted) ?_
    intro _ placed impossible
    cases impossible
  · exact .refused

theorem remove_found (held : s.entryOf node name = some entry) :
    (s.remove caps node name).1 = true := by
  cases found : s.findIndex node name with
  | none =>
    rw [entryOf_eq_none_iff.mpr found] at held
    cases held
  | some slot => rw [ParameterServer.remove, found]

theorem touched_applyDelete :
    s.Touched node name (s.Keeps node name) ((s.applyDelete caps node name).1.isOk,
      (s.applyDelete caps node name).2) := by
  unfold ParameterServer.applyDelete
  split
  · exact .refused
  next entry held =>
    split
    · exact .refused
    · split
      · exact .refused
      · have removed := @touched_remove caps s node name
        have whole : s.remove caps node name = (true, (s.remove caps node name).2) :=
          Prod.ext (remove_found held) rfl
        rw [whole] at removed
        exact removed

theorem touched_declareRef :
    s.Touched node name (s.Keeps node name) (s.declareRef caps node name value) := by
  have declared := @touched_declare caps s node name value none
  refine declared.mono ?_
  rintro new ⟨rfl, _⟩ _ entry is
  cases is
  exact ParameterEntry.fits_of_undescribed rfl

theorem touched_orDeclare :
    s.Touched node name (s.Keeps node name) ((s.setOrDeclare caps node name value).1.isOk,
      (s.setOrDeclare caps node name value).2) := by
  unfold setOrDeclare
  split
  · exact touched_set
  · have declared := @touched_declareRef caps s node name value
    dsimp only
    cases verdict : (s.declareRef caps node name value).1 with
    | true =>
      have whole : s.declareRef caps node name value =
          (true, (s.declareRef caps node name value).2) := Prod.ext verdict rfl
      rw [whole] at declared
      exact declared
    | false =>
      have whole : s.declareRef caps node name value =
          (false, (s.declareRef caps node name value).2) := Prod.ext verdict rfl
      rw [whole] at declared
      exact declared

theorem touched_apply :
    s.Touched node name (s.Keeps node name) ((s.applyRef caps node name value).1.isOk,
      (s.applyRef caps node name value).2) := by
  unfold applyRef
  split
  · exact touched_applyDelete
  · split
    · exact .refused
    · split
      · exact .refused
      · exact touched_orDeclare

theorem descriptorMut_eq_some {desc : ParameterDescriptor}
    (here : s.descriptorMut caps node name = some (slot, entry, desc)) :
    s.findIndex node name = some slot ∧ s.entries[slot]? = some (some entry) ∧
      s.entryOf node name = some entry ∧
      (entry.Fits → ParameterEntry.Fits { entry with descriptor := some desc }) := by
  unfold descriptorMut at here
  split at here
  · cases here
  next idx found =>
    rcases KeyedSlots.find_eq_some found with ⟨other, held, _⟩
    rw [held] at here
    dsimp only [Option.bind_some, id] at here
    split at here
    next described =>
      cases here
      refine ⟨found, held, entryOf_of_found found held, ?_⟩
      intro fits
      rw [← described]
      exact fits
    · rw [Option.map_eq_some_iff] at here
      rcases here with ⟨fresh, made, is⟩
      cases is
      refine ⟨found, held, entryOf_of_found found held, ?_⟩
      intro _ placed same _
      cases same
      unfold ParameterDescriptor.new at made
      split at made
      · cases made
      · cases made
        exact Or.inr ⟨rfl, rfl⟩

theorem touched_redescribe (change : ParameterDescriptor → ParameterDescriptor) (pending : Bool)
    (typed : ∀ desc, (change desc).paramType = desc.paramType)
    (dynamic : ∀ desc, (change desc).dynamicTyping = desc.dynamicTyping)
    (ranged : ∀ desc, (change desc).range = desc.range) {desc : ParameterDescriptor}
    (here : s.descriptorMut caps node name = some (slot, entry, desc)) :
    s.Touched node name (s.Keeps node name)
      (true, { s.setDescriptorAt slot entry (change desc) with
        truncationPending := pending }) := by
  rcases descriptorMut_eq_some here with ⟨found, held, looked, kept⟩
  have edits := edits_setDescriptor found held (change desc)
  refine .put ⟨edits.placed, edits.keyed, edits.counted⟩ ?_
  intro fits placed is described same static
  cases is
  cases same
  have before := kept (fits entry looked) desc rfl
  rw [dynamic] at static
  rw [typed, ranged]
  exact before static

theorem touched_setParameterDescription {texts : DescriptionCaps} {text constraints : String} :
    s.Touched node name (s.Keeps node name)
      (s.setParameterDescription caps texts node name text constraints) := by
  unfold setParameterDescription
  split
  · exact .refused
  next slot entry desc here =>
    exact touched_redescribe
      (fun desc => ((desc.setDescription texts text).2.setAdditionalConstraints texts
        constraints).2)
      _ (fun _ => rfl) (fun _ => rfl) (fun _ => rfl) here

theorem touched_setParameterReadOnly {readOnly : Bool} :
    s.Touched node name (s.Keeps node name)
      (s.setParameterReadOnly caps node name readOnly) := by
  unfold setParameterReadOnly
  split
  · exact .refused
  next slot entry desc here =>
    exact touched_redescribe (fun desc => { desc with readOnly }) s.truncationPending
      (fun _ => rfl) (fun _ => rfl) (fun _ => rfl) here

theorem touched_setParameterRange {range : ParameterRange} :
    s.Touched node name (s.Keeps node name) (s.setParameterRange caps node name range) := by
  unfold setParameterRange
  split
  · exact .refused
  · split
    · exact .refused
    next entry looked =>
      split
      · exact .refused
      next inside =>
        have contained : range.contains entry.param.value = true := by simpa using inside
        split
        · exact .refused
        next slot entry' desc here =>
          rcases descriptorMut_eq_some here with ⟨found, held, looked', kept⟩
          rw [looked] at looked'
          cases looked'
          refine .put (edits_setDescriptor found held { desc with range }) ?_
          intro fits placed is described same static
          cases is
          cases same
          rcases kept (fits entry looked) desc rfl static with unset | ⟨typed, _⟩
          · exact Or.inl unset
          · exact Or.inr ⟨typed, contained⟩

end

end ParameterServer

end NanoRos
