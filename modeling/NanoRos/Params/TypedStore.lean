import NanoRos.Params.StoreRuns

/-! What the store holds fits its descriptors, from an empty table through any calls but the owner's
set, as long as each declaration's value is of the type its descriptor names. -/

namespace NanoRos

/-- The calls that reach the store from elsewhere than the parameter's owner. -/
def remoteStep (caps : ParamCaps) (texts : DescriptionCaps) (s : ParameterServer)
    (call : StoreCall) : Option ParameterServer :=
  if call.ownersSet then none else storeStep caps texts s call

namespace ParameterServer

/-- Names are unique, the count is that of the taken slots, and each value fits its descriptor. -/
structure Sound (s : ParameterServer) : Prop where
  valid : s.Valid
  fit : s.AllFit

/-- A declaration the store takes gives nothing, or a value of its descriptor's type, unless the
descriptor is dynamically typed. -/
def DeclaresTyped (caps : ParamCaps) (s : ParameterServer) (call : StoreCall) : Prop :=
  ∀ node name value desc, call.declaration = some (node, name, value, desc) →
    s.Admits caps node name value (some desc) →
    desc.dynamicTyping = true ∨ value = .notSet ∨ value.paramType = desc.paramType

section

variable {caps : ParamCaps} {texts : DescriptionCaps} {s next : ParameterServer}

theorem allFit_newIn_replicate (slots : Nat) : (newIn (List.replicate slots none)).AllFit := by
  intro entry member
  cases List.eq_of_mem_replicate member

theorem fits_declared_iff {node : NodeKey} {name : String} {value : ParameterValue}
    {desc : ParameterDescriptor}
    (consistent : declarationConsistency (some desc) value = .ok ()) :
    ParameterEntry.Fits ⟨node, ⟨name, value⟩, some desc⟩ ↔
      desc.dynamicTyping = true ∨ value = .notSet ∨ value.paramType = desc.paramType := by
  have ranged : desc.range.contains value = true := by
    unfold declarationConsistency at consistent
    dsimp only at consistent
    split at consistent
    · cases consistent
    · split at consistent
      · cases consistent
      next inside => simpa [ParameterDescriptor.validateRange] using inside
  constructor
  · intro fits
    cases dynamic : desc.dynamicTyping with
    | true => exact Or.inl rfl
    | false =>
      rcases fits desc rfl dynamic with unset | ⟨typed, _⟩
      · exact Or.inr (Or.inl unset)
      · exact Or.inr (Or.inr typed)
  · rintro typed _ same static
    cases same
    rcases typed with dynamic | unset | typed
    · rw [dynamic] at static
      cases static
    · exact Or.inl unset
    · exact Or.inr ⟨typed, ranged⟩

theorem forall_declaration {call : StoreCall} {node : NodeKey} {name : String}
    {value : ParameterValue} {desc : ParameterDescriptor}
    {p : NodeKey → String → ParameterValue → ParameterDescriptor → Prop}
    (declares : call.declaration = some (node, name, value, desc)) :
    (∀ node name value desc, call.declaration = some (node, name, value, desc) →
      p node name value desc) ↔ p node name value desc := by
  constructor
  · exact fun all => all node name value desc declares
  · intro here node' name' value' desc' given
    rw [declares] at given
    cases given
    exact here

theorem valid_step {call : StoreCall} (valid : s.Valid)
    (stepped : remoteStep caps texts s call = some next) : next.Valid := by
  unfold remoteStep at stepped
  split at stepped
  · cases stepped
  next remote =>
    cases stepped
    cases declares : call.declaration with
    | none => exact (StoreCall.settles declares (by simpa using remote)).evolves.valid valid
    | some given =>
      have touched := @StoreCall.touched_of_declaration caps texts s call _ _ _ _ declares
      cases placed : call.perform caps texts s with
      | mk ok next =>
        rw [placed] at touched
        cases touched with
        | refused => exact valid
        | put edits _ => exact edits.valid valid

theorem sound_step_iff {call : StoreCall} (sound : s.Sound)
    (stepped : remoteStep caps texts s call = some next) :
    next.Sound ↔ s.DeclaresTyped caps call := by
  have kept := valid_step sound.valid stepped
  unfold remoteStep at stepped
  split at stepped
  · cases stepped
  next remote =>
    cases stepped
    cases declares : call.declaration with
    | none =>
      apply iff_of_true
      · have settles := @StoreCall.settles caps texts s call declares (by simpa using remote)
        exact ⟨kept, settles.evolves.allFit sound.fit⟩
      · intro node name value desc given
        rw [declares] at given
        cases given
    | some given =>
      rcases given with ⟨node, name, value, desc⟩
      rw [DeclaresTyped, forall_declaration declares]
      have touched := @StoreCall.touched_of_declaration caps texts s call _ _ _ _ declares
      have admits := @StoreCall.admitted_of_declaration caps texts s call _ _ _ _ declares
      rcases performed : call.perform caps texts s with ⟨ok, next⟩
      rw [performed] at kept touched admits
      cases touched with
      | refused =>
        apply iff_of_true sound
        intro admitted
        cases admits admitted
      | put edits placed =>
        rcases placed with ⟨rfl, admitted⟩
        rw [imp_iff_right admitted, ← fits_declared_iff admitted.2.1]
        constructor
        · exact fun after => after.fit _ (edits.mem sound.valid.distinct)
        · intro fits
          refine ⟨kept, edits.allFit sound.fit ?_⟩
          intro entry is
          cases is
          exact fits

end

/-- From an empty table, through any calls but the owner's set: every store the run passes is
sound exactly if each declaration with a static descriptor that the store takes gives a value of
the descriptor's type, or none. -/
theorem store_sound_iff (caps : ParamCaps) (texts : DescriptionCaps) (slots : Nat)
    (calls : List StoreCall) (last : ParameterServer)
    (reached : run (remoteStep caps texts) (newIn (List.replicate slots none)) calls = some last) :
    (∀ before, before <+: calls → ∀ mid,
        run (remoteStep caps texts) (newIn (List.replicate slots none)) before = some mid →
        mid.Sound) ↔
      Along (remoteStep caps texts) (DeclaresTyped caps) (newIn (List.replicate slots none))
        calls := by
  have start : (newIn (List.replicate slots none)).Sound :=
    ⟨valid_newIn_replicate slots, allFit_newIn_replicate slots⟩
  apply @run_throughout_iff _ _ _ _ Valid Sound
  · exact fun s call next valid stepped => valid_step valid stepped
  · exact fun s call next _ sound stepped => sound_step_iff sound stepped
  · exact start.valid
  · exact start
  · exact reached

/-- `rate` declared with a value and with a descriptor for integers. -/
def declareRate (value : ParameterValue) : StoreCall :=
  .write 0 "rate" (.declare value (some ⟨"rate", .integer, "", "", false, false, .none, false⟩))

theorem store_sound_rate : ∃ last, run (remoteStep ⟨64, 128, 16, 32⟩ ⟨128, 128⟩)
    (newIn (List.replicate 1 none)) [declareRate (.integer 1)] = some last ∧ last.Sound := by
  refine ⟨_, rfl, ?_⟩
  have typed : Along (remoteStep ⟨64, 128, 16, 32⟩ ⟨128, 128⟩) (DeclaresTyped ⟨64, 128, 16, 32⟩)
      (newIn (List.replicate 1 none)) [declareRate (.integer 1)] := by
    refine ⟨?_, fun _ _ => trivial⟩
    intro node name value desc declares _
    cases declares
    exact Or.inr (Or.inr rfl)
  exact (store_sound_iff ⟨64, 128, 16, 32⟩ ⟨128, 128⟩ 1 [declareRate (.integer 1)] _ rfl).mpr typed
    _ (List.prefix_refl _) _ rfl

/-- A boolean under a descriptor for integers. -/
theorem store_unsound_mistyped : ¬ ∀ (caps : ParamCaps) (texts : DescriptionCaps) (slots : Nat)
    (calls : List StoreCall) (last : ParameterServer),
    run (remoteStep caps texts) (newIn (List.replicate slots none)) calls = some last →
    last.Sound := by
  intro all
  have sound := all ⟨64, 128, 16, 32⟩ ⟨128, 128⟩ 1 [declareRate (.bool true)] _ rfl
  have held : some ⟨0, ⟨"rate", .bool true⟩,
      some ⟨"rate", .integer, "", "", false, false, .none, false⟩⟩ ∈
      ((declareRate (.bool true)).perform ⟨64, 128, 16, 32⟩ ⟨128, 128⟩
        (newIn (List.replicate 1 none))).2.entries := by decide +kernel
  rcases sound.fit _ held _ rfl rfl with unset | ⟨typed, _⟩
  · cases unset
  · cases typed

end ParameterServer

end NanoRos
