import NanoRos.Params.StoreRuns

/-! The dry run of a wire-facing set against the set: what `check_apply` answers, what the two
writers do, and what a refusal leaves. -/

namespace NanoRos

namespace ParameterServer

def AcceptsAll (s : ParameterServer) : Prop :=
  ∀ slot ∈ s.onSet.filterMap id, ∀ name old new,
    slot.callback slot.node name old new slot.ctx = true

/-- The check answers what the writers would, they do the same, and refusals change nothing. -/
structure Predicts (caps : ParamCaps) (texts : DescriptionCaps) (s : ParameterServer)
    (node : NodeKey) (name : String) (value : ParameterValue) : Prop where
  byValue : s.checkApply caps node name value = (s.apply caps node name value).1
  staged : s.checkApply caps node name value = (s.applyStaged caps node name value).1
  entries : (s.applyStaged caps node name value).2.entries =
    (s.apply caps node name value).2.entries
  eventLog : (s.applyStaged caps node name value).2.eventLog =
    (s.apply caps node name value).2.eventLog
  eventsDropped : (s.applyStaged caps node name value).2.eventsDropped =
    (s.apply caps node name value).2.eventsDropped
  refusals : ∀ call : StoreCall, (call.perform caps texts s).1 = false →
    (call.perform caps texts s).2.entries = s.entries ∧
      (call.perform caps texts s).2.count = s.count

/-- A set that is in truth a delete names a parameter, and its type is no hindrance. -/
def DeleteForeseen (s : ParameterServer) (node : NodeKey) (name : String)
    (value : ParameterValue) : Prop :=
  s.deletes node value = true → ∃ entry, s.entryOf node name = some entry ∧
    ∀ desc, entry.descriptor = some desc →
      desc.readOnly = true ∨ desc.dynamicTyping = true ∨ desc.paramType = .notSet

section

variable {caps : ParamCaps} {texts : DescriptionCaps} {s : ParameterServer} {node : NodeKey}
  {name : String} {value : ParameterValue}

theorem AcceptsAll.runOnSetCallbacks (accepting : s.AcceptsAll) (old new : Option ParameterValue) :
    s.runOnSetCallbacks node name old new = true := by
  rw [ParameterServer.runOnSetCallbacks, List.all_eq_true]
  intro slot member
  by_cases here : slot.node = node
  · subst here
    simp [accepting slot member]
  · simp [here]

theorem applyRef_verdict (counted : s.Counted) (accepting : s.AcceptsAll)
    (sets : s.deletes node value = false) :
    (s.applyRef caps node name value).1 = s.checkApply caps node name value := by
  cases checked : s.checkApply caps node name value with
  | error e => rw [applyRef_unchecked sets checked]
  | ok =>
    rw [applyRef, sets, checked, accepting.runOnSetCallbacks]
    simp only [Bool.false_eq_true, if_false, Bool.not_true]
    cases found : s.findIndex node name with
    | some slot =>
      rw [Option.isSome_some, if_pos rfl, setRef_found found checked]
    | none =>
      have missing := entryOf_eq_none_iff.mpr found
      rcases (checkApply_missing missing value).mp checked with ⟨_, room, short⟩
      rw [counted, capacity, ← KeyedSlots.free_isSome_iff] at room
      rcases Option.isSome_iff_exists.mp room with ⟨slot, free⟩
      rw [Option.isSome_none, if_neg Bool.false_ne_true, declareRef_missing found short,
        findEmptySlot, free]
      rfl

theorem applyDelete_verdict (accepting : s.AcceptsAll) : (s.applyDelete caps node name).1 =
      match s.entryOf node name with
      | none => .error .notFound
      | some entry =>
        if entry.descriptor.any ParameterDescriptor.readOnly then .error .readOnly
        else .ok () := by
  unfold applyDelete
  rw [accepting.runOnSetCallbacks]
  cases s.entryOf node name with
  | none => rfl
  | some entry =>
    dsimp only
    split <;> rfl

theorem checkApply_ne_notFound (missing : s.entryOf node name = none) :
    s.checkApply caps node name value ≠ .error .notFound := by
  rw [checkApply, missing]
  dsimp only
  split
  · simp
  · split
    · simp
    · split <;> simp

theorem checkSetExisting_notSet (entry : ParameterEntry) :
    checkSetExisting entry .notSet = (if entry.descriptor.any ParameterDescriptor.readOnly then
        .error .readOnly else .ok ()) ↔
      ∀ desc, entry.descriptor = some desc →
        desc.readOnly = true ∨ desc.dynamicTyping = true ∨ desc.paramType = .notSet := by
  rw [checkSetExisting]
  cases entry.descriptor with
  | none => simp
  | some desc =>
    have open_ : desc.validateRange .notSet = true := by
      unfold ParameterDescriptor.validateRange ParameterRange.contains
      split <;> first | rfl | contradiction
    cases guarded : desc.readOnly with
    | true => simp [guarded]
    | false =>
      cases dynamic : desc.dynamicTyping with
      | true => simp [guarded, dynamic, open_]
      | false =>
        by_cases typed : desc.paramType = .notSet
        · simp [guarded, dynamic, typed, open_, ParameterValue.paramType]
        · simp [guarded, dynamic, typed, ParameterValue.paramType]

theorem checkApply_eq_apply_iff (counted : s.Counted) (accepting : s.AcceptsAll) :
    s.checkApply caps node name value = (s.apply caps node name value).1 ↔
      s.DeleteForeseen node name value := by
  rw [apply, DeleteForeseen]
  cases kind : s.deletes node value with
  | false =>
    rw [applyRef_verdict counted accepting kind]
    simp
  | true =>
    have unset : value = .notSet := by
      rw [deletes, Bool.and_eq_true, decide_eq_true_eq] at kind
      exact kind.1
    have delete : s.applyRef caps node name value = s.applyDelete caps node name := by
      rw [applyRef, kind]
      rfl
    rw [delete, applyDelete_verdict accepting]
    cases held : s.entryOf node name with
    | none =>
      have differs := @checkApply_ne_notFound caps s node name value held
      simp [differs]
    | some entry =>
      have checked : s.checkApply caps node name value = checkSetExisting entry .notSet := by
        rw [checkApply, held, unset]
      rw [checked]
      simp only [true_imp_iff]
      rw [checkSetExisting_notSet]
      simp

end

/-- From any table, through any calls: the dry run predicts the write, but for deletes of a name
it does not know or of a parameter whose type it checks first. -/
theorem dry_run_predicts_iff (caps : ParamCaps) (texts : DescriptionCaps)
    (entries : List (Option ParameterEntry)) (calls : List StoreCall) (s : ParameterServer)
    (reached : run (storeStep caps texts) (newIn entries) calls = some s)
    (accepting : s.AcceptsAll) (node : NodeKey) (name : String) (value : ParameterValue) :
    s.Predicts caps texts node name value ↔ s.DeleteForeseen node name value := by
  rw [← @checkApply_eq_apply_iff caps s node name value (counted_of_run reached) accepting]
  have same := applyStaged_eq_apply caps s node name value
  constructor
  · exact Predicts.byValue
  · intro agrees
    refine ⟨agrees, ?_, ?_, ?_, ?_, ?_⟩
    · rw [same]
      exact agrees
    · rw [same]
    · rw [same]
    · rw [same]
    · intro call fails
      rw [call.refused fails]
      exact ⟨rfl, rfl⟩

/-- A node that deletes on `NOT_SET`, with one integer described as such. -/
def describedRate : List StoreCall :=
  [.setDeleteOnNotSet 0 true, .write 0 "rate" (.declare (.integer 1)
      (some ⟨"rate", .integer, "", "", false, false, .none, false⟩))]

def describedRateStore : ParameterServer :=
  (run (storeStep ⟨64, 128, 16, 32⟩ ⟨128, 128⟩) (newIn [none]) describedRate).getD (newIn [])

theorem describedRate_reached :
    run (storeStep ⟨64, 128, 16, 32⟩ ⟨128, 128⟩) (newIn [none]) describedRate =
      some describedRateStore := rfl

theorem describedRate_unhooked : describedRateStore.AcceptsAll := by
  have hooks : describedRateStore.onSet.filterMap id = [] := rfl
  intro slot member
  rw [hooks] at member
  cases member

theorem dry_run_predicts_set :
    describedRateStore.Predicts ⟨64, 128, 16, 32⟩ ⟨128, 128⟩ 0 "rate" (.integer 2) :=
  (dry_run_predicts_iff ⟨64, 128, 16, 32⟩ ⟨128, 128⟩ [none] describedRate describedRateStore
    describedRate_reached describedRate_unhooked 0 "rate" (.integer 2)).mpr
      fun deletes => nomatch deletes

/-- The check says `TypeMismatch`; the set deletes the parameter. -/
theorem dry_run_misses_delete : ¬ ∀ (caps : ParamCaps) (texts : DescriptionCaps)
    (entries : List (Option ParameterEntry)) (calls : List StoreCall) (s : ParameterServer),
    run (storeStep caps texts) (newIn entries) calls = some s → s.AcceptsAll →
    ∀ node name value, s.Predicts caps texts node name value := by
  intro all
  have predicted := (all ⟨64, 128, 16, 32⟩ ⟨128, 128⟩ [none] describedRate describedRateStore
    describedRate_reached describedRate_unhooked 0 "rate" .notSet).byValue
  have checked : describedRateStore.checkApply ⟨64, 128, 16, 32⟩ 0 "rate" .notSet =
      .error .typeMismatch := by decide +kernel
  have applied : (describedRateStore.apply ⟨64, 128, 16, 32⟩ 0 "rate" .notSet).1 = .ok () := by
    decide +kernel
  rw [checked, applied] at predicted
  cases predicted

end ParameterServer

end NanoRos
