import NanoRos.Params.Apply
import NanoRos.Params.Events

/-! What the writes of the store do to its table and to the log of events. -/

namespace NanoRos

/-! Flags. -/

namespace NodeFlags

variable {flags : NodeFlags} {node other : NodeKey}

theorem get_set (on : Bool) :
    (flags.set node on).get other = if other = node then on else flags.get other := by
  have small : node.toNat < 256 := node.toNat_lt
  cases on
  · rw [set, if_neg Bool.false_ne_true, get, get, Mask.has_erase]
    by_cases same : other = node
    · simp [same]
    · have apart : node.toNat ≠ other.toNat := fun eq => same (UInt8.toNat_inj.mp eq.symm)
      simp [same, apart]
  · rw [set, if_pos rfl, get, get, Mask.has_insert]
    by_cases same : other = node
    · simp [same, small]
    · have apart : node.toNat ≠ other.toNat := fun eq => same (UInt8.toNat_inj.mp eq.symm)
      simp [same, apart]

theorem first_eq_some : flags.first = some node ↔
    flags.get node = true ∧ ∀ lower : NodeKey, lower < node → flags.get lower = false := by
  have found (i : Nat) : ((List.range 256).find? fun node => flags.has node) = some i ↔
      flags.has i = true ∧ i < 256 ∧ ∀ j < i, flags.has j = false := by
    rw [List.find?_range_eq_some]
    simp
  rw [first, Option.map_eq_some_iff]
  constructor
  · rintro ⟨i, least, rfl⟩
    obtain ⟨here, small, before⟩ := (found i).mp least
    have value : (UInt8.ofNat i).toNat = i := UInt8.toNat_ofNat_of_lt small
    refine ⟨by rw [get, value]; exact here, fun lower below => before _ ?_⟩
    have order := UInt8.lt_iff_toNat_lt.mp below
    rw [value] at order
    exact order
  · rintro ⟨here, before⟩
    refine ⟨node.toNat, (found _).mpr ⟨here, node.toNat_lt, fun j below => ?_⟩, UInt8.ofNat_toNat⟩
    have small : j < 256 := below.trans node.toNat_lt
    have value : (UInt8.ofNat j).toNat = j := UInt8.toNat_ofNat_of_lt small
    have lower := before (UInt8.ofNat j) (UInt8.lt_iff_toNat_lt.mpr (by rw [value]; exact below))
    rw [get, value] at lower
    exact lower

theorem first_eq_none : flags.first = none ↔ ∀ node, flags.get node = false := by
  rw [first, Option.map_eq_none_iff, List.find?_range_eq_none]
  constructor
  · intro none node
    have absent := none node.toNat node.toNat_lt
    simpa [get] using absent
  · intro none i small
    have absent := none (UInt8.ofNat i)
    have value : (UInt8.ofNat i).toNat = i := UInt8.toNat_ofNat_of_lt small
    rw [get, value] at absent
    rw [absent]
    rfl

end NodeFlags

namespace ParameterServer

/-! What a write does to the table. -/

/-- The slot a write to a parameter lands in. -/
def slotOf (s : ParameterServer) (node : NodeKey) (name : String) : Option Nat :=
  (s.findIndex node name).or s.findEmptySlot

/-- The write is refused, or it puts one entry in the parameter's slot and notes the event. -/
inductive Outcome (caps : ParamCaps) (s : ParameterServer) (node : NodeKey) (name : String) :
    Bool × ParameterServer → Prop
  | refused : Outcome caps s node name (false, s)
  | put (slot : Nat) (new : Option ParameterEntry) (count : Nat) (truncationPending : Bool)
      (kind : ParameterEventKind) (lands : s.slotOf node name = some slot)
      (keyed : ∀ entry, new = some entry → entry.key = (node, name))
      (deletes : kind = .deleted ↔ new = none) (changes : kind ≠ .announce) :
      Outcome caps s node name (true, { s with
        entries := s.entries.set slot new, count, truncationPending }.noteEvent caps node kind name)

section

variable {caps : ParamCaps} {s : ParameterServer} {node : NodeKey} {name : String}

variable {slot : Nat} {value : ParameterValue}

theorem slotOf_of_find (found : s.findIndex node name = some slot) :
    s.slotOf node name = some slot := by
  rw [slotOf, found, Option.some_or]

theorem slotOf_of_free (missing : s.findIndex node name = none)
    (free : s.findEmptySlot = some slot) :
      s.slotOf node name = some slot := by
  rw [slotOf, missing, Option.none_or, free]

theorem Outcome.setValue {entry : ParameterEntry} (found : s.findIndex node name = some slot)
    (held : s.entries[slot]? = some (some entry)) (value : ParameterValue) :
    Outcome caps s node name (true, (s.setValueAt slot value).noteEvent caps node .changed name) := by
  obtain ⟨other, here, key⟩ := KeyedSlots.find_eq_some found
  rw [held] at here
  cases here
  rw [setValueAt_eq held]
  apply Outcome.put slot (some { entry with param := { entry.param with value := value } })
    s.count s.truncationPending .changed (slotOf_of_find found)
  · intro changed is
    cases is
    exact key
  · simp
  · simp

theorem noteDescriptor_frame (s : ParameterServer) (descriptor : Option ParameterDescriptor) :
    ∃ pending, s.noteDescriptor descriptor = { s with truncationPending := pending } := by
  unfold noteDescriptor
  split <;> exact ⟨_, rfl⟩

theorem Outcome.declare {descriptor : Option ParameterDescriptor} :
    Outcome caps s node name ((s.tryDeclareRef caps node name value descriptor).1.isOk,
      (s.tryDeclareRef caps node name value descriptor).2) := by
  unfold tryDeclareRef
  split
  · exact .refused
  · rename_i absent
    have missing : s.findIndex node name = none := by simpa using absent
    split
    · exact .refused
    · split
      · exact .refused
      · rename_i slot free
        split
        · exact .refused
        · obtain ⟨pending, noted⟩ := noteDescriptor_frame s descriptor
          rw [noted]
          apply Outcome.put slot (some ⟨node, ⟨name, value⟩, descriptor⟩) (s.count + 1) pending .new
            (slotOf_of_free missing free)
          · intro entry is
            cases is
            rfl
          · simp
          · simp

theorem Outcome.remove :
    Outcome caps s node name (s.remove caps node name) := by
  unfold ParameterServer.remove
  split
  · rename_i idx found
    apply Outcome.put idx none (s.count - 1) s.truncationPending .deleted (slotOf_of_find found)
    · intro entry impossible
      cases impossible
    · simp
    · simp
  · exact .refused

theorem Outcome.set :
    Outcome caps s node name ((s.setRef caps node name value).1.isOk,
      (s.setRef caps node name value).2) := by
  unfold setRef
  split
  · exact .refused
  · rename_i idx found
    obtain ⟨entry, held, _⟩ := KeyedSlots.find_eq_some found
    rw [held]
    dsimp only [Option.bind_some, id]
    split
    · exact .refused
    · exact .setValue found held value

theorem Outcome.unset : Outcome caps s node name ((s.unset caps node name).1.isOk,
    (s.unset caps node name).2) := by
  unfold ParameterServer.unset
  split
  · exact .refused
  · rename_i idx found
    obtain ⟨entry, held, _⟩ := KeyedSlots.find_eq_some found
    rw [held]
    dsimp only [Option.bind_some, id]
    split
    · exact .refused
    · exact .setValue found held .notSet

theorem Outcome.setLocal :
    Outcome caps s node name ((s.setLocal caps node name value).1.isOk,
      (s.setLocal caps node name value).2) := by
  unfold ParameterServer.setLocal
  split
  · exact .refused
  · rename_i idx found
    obtain ⟨entry, held, _⟩ := KeyedSlots.find_eq_some found
    rw [held]
    dsimp only [Option.bind_some, id]
    split
    · exact .refused
    · split
      · exact .refused
      · exact .setValue found held value

theorem Outcome.applyDelete : Outcome caps s node name ((s.applyDelete caps node name).1.isOk,
    (s.applyDelete caps node name).2) := by
  unfold ParameterServer.applyDelete
  split
  · exact .refused
  · rename_i entry held
    split
    · exact .refused
    · split
      · exact .refused
      · have removed := @Outcome.remove caps s node name
        have present : (s.remove caps node name).1 = true := by
          cases found : s.findIndex node name with
          | none =>
            rw [entryOf_eq_none_iff.mpr found] at held
            cases held
          | some idx =>
            rw [ParameterServer.remove, found]
        have whole : s.remove caps node name = (true, (s.remove caps node name).2) :=
          Prod.ext present rfl
        rw [whole] at removed
        exact removed

theorem Outcome.apply :
    Outcome caps s node name ((s.applyRef caps node name value).1.isOk,
      (s.applyRef caps node name value).2) := by
  unfold applyRef
  split
  · exact .applyDelete
  · split
    · exact .refused
    · split
      · exact .refused
      · split
        · exact .set
        · have declared := @Outcome.declare caps s node name value none
          unfold declareRef
          dsimp only
          cases verdict : (s.tryDeclareRef caps node name value none).1 with
          | ok done | error e =>
            rw [verdict] at declared
            exact declared

theorem perform_outcome (w : ParamWrite) :
    Outcome caps s node name (w.perform caps s node name) := by
  cases w with
  | declare value descriptor => exact .declare
  | set value => exact .set
  | apply value => exact .apply
  | applyStaged value =>
    rw [ParamWrite.perform, applyStaged_eq_apply]
    exact .apply
  | unset => exact .unset
  | remove => exact .remove
  | setLocal value => exact .setLocal

end

/-! What a noted event does to the log. -/

end ParameterServer

def PendingParameterEvent.key (event : PendingParameterEvent) : NodeKey × String :=
  (event.node, event.name)

namespace ParameterServer

/-- The log holds one entry for the parameter, of that kind, and what it held for others. -/
structure Noted (log next : List PendingParameterEvent) (event : PendingParameterEvent) : Prop where
  keys : (log.map PendingParameterEvent.key).Nodup → (next.map PendingParameterEvent.key).Nodup
  mem : (log.map PendingParameterEvent.key).Nodup → ∀ e, e ∈ next ↔
    (e ∈ log ∧ e.key ≠ event.key) ∨ e = event

theorem noteEvent_cases (caps : ParamCaps) (s : ParameterServer) (node : NodeKey)
    (kind : ParameterEventKind) (name : String) (changes : kind ≠ .announce) :
    s.noteEvent caps node kind name = s ∧
        (s.eventsEnabled.get node = false ∨ s.eventsInitial.get node = true) ∨
      (s.noteEvent caps node kind name).eventsDropped ≠ 0 ∧
        (s.noteEvent caps node kind name).eventLog = s.eventLog ∨
      ∃ log kind', s.noteEvent caps node kind name = { s with eventLog := log } ∧
        s.eventsEnabled.get node = true ∧ s.eventsInitial.get node = false ∧
        Noted s.eventLog log ⟨node, kind', name⟩ ∧ kind' ≠ .announce ∧
        (kind' = .deleted ↔ kind = .deleted) := by
  unfold noteEvent
  dsimp only
  by_cases silent : (!s.eventsEnabled.get node || s.eventsInitial.get node) = true
  · rw [if_pos silent]
    left
    refine ⟨rfl, ?_⟩
    simpa using silent
  · rw [if_neg silent]
    have open' : s.eventsEnabled.get node = true ∧ s.eventsInitial.get node = false := by
      simpa using silent
    have matching (e : PendingParameterEvent) :
        decide (e.node = node ∧ e.name = name) = true ↔ e.key = (node, name) := by
      rw [decide_eq_true_eq, PendingParameterEvent.key, Prod.mk.injEq]
    by_cases merged : (s.eventLog.any fun e => decide (e.node = node ∧ e.name = name)) = true
    · rw [if_pos merged]
      obtain ⟨old, listed, same⟩ := List.any_eq_true.mp merged
      right
      right
      refine ⟨_, if old.kind = .new ∧ kind = .changed then .new else kind, rfl, open'.1, open'.2,
        ⟨?_, ?_⟩, ?_, ?_⟩
      · intro distinct
        rw [map_updateFirst]
        · exact distinct
        · exact fun e => rfl
      · intro distinct e
        have alone : s.eventLog.Pairwise fun x y => ¬ (decide (x.node = node ∧ x.name = name) = true ∧
            decide (y.node = node ∧ y.name = name) = true) := by
          rw [List.Nodup, List.pairwise_map] at distinct
          exact distinct.imp fun apart both =>
            apart (((matching _).mp both.1).trans ((matching _).mp both.2).symm)
        rw [mem_updateFirst_iff listed same alone]
        have key := (matching old).mp same
        rw [PendingParameterEvent.key, Prod.mk.injEq] at key
        rw [key.1, key.2]
        apply or_congr_left
        apply and_congr_right
        intro _
        rw [Bool.eq_false_iff, Ne, matching]
        exact Iff.rfl
      · split
        · simp
        · exact changes
      · split
        next both => simp [both.2]
        next => exact Iff.rfl
    · rw [if_neg merged]
      by_cases room : byteLen name ≤ caps.maxParamNameLen ∧ s.eventLog.length < parameterEventLogLen
      · rw [if_pos room]
        right
        right
        have absent : ∀ e ∈ s.eventLog, e.key ≠ (node, name) := by
          intro e member same
          exact merged (List.any_eq_true.mpr ⟨e, member, (matching e).mpr same⟩)
        refine ⟨_, kind, rfl, open'.1, open'.2, ⟨?_, ?_⟩, changes, Iff.rfl⟩
        · intro distinct
          rw [List.map_append, List.map_singleton, ← List.concat_eq_append]
          apply distinct.concat
          intro listed
          obtain ⟨e, member, same⟩ := List.mem_map.mp listed
          exact absent e member same
        · intro _ e
          rw [List.mem_append, List.mem_singleton]
          apply or_congr_left
          exact ⟨fun member => ⟨member, absent e member⟩, And.left⟩
      · rw [if_neg room]
        right
        left
        refine ⟨?_, rfl⟩
        dsimp only
        intro zero
        have count := congrArg UInt32.toNat zero
        rw [toNat_saturatingAdd] at count
        have one : (1 : UInt32).toNat = 1 := rfl
        have none : (0 : UInt32).toNat = 0 := rfl
        have most : u32Max = 4294967295 := rfl
        omega

end ParameterServer

end NanoRos
