import NanoRos.Serdes.Generated

/-! A typed value whose bytes were aligned from one origin and are read from another, four bytes
further on. -/

namespace NanoRos

open LittleEndian Memory

inductive Sync where
  /-- Only zeros so far: where the writer is and where the reader is, each from its own origin. -/
  | lagging (written read : Nat)
  /-- The reader is where the writer was, and every alignment up to four is the same for both. -/
  | inStep
  | lost
  deriving DecidableEq

namespace Sync

/-- A member that starts at a multiple of `width` and depends on the value. -/
def leaf (width : Nat) : Sync → Sync
  | .lagging written read =>
    if 4 % width = 0 ∧ read + padding width read = written + padding width written + 4 then
      .inStep
    else .lost
  | .inStep => if 4 % width = 0 then .inStep else .lost
  | .lost => .lost

/-- The padding of a struct without members. -/
def zeroByte : Sync → Sync
  | .lagging written read => .lagging (written + 1) (read + 1)
  | s => s

/-- The length of a sequence that cannot have elements. -/
def zeroWord : Sync → Sync
  | .lagging written read =>
    let written := written + padding 4 written + 4
    let read := read + padding 4 read + 4
    if read = written + 4 then .inStep else .lagging written read
  | s => s

end Sync

mutual

def sync : FieldType → Sync → Sync
  | .bool, s | .uint8, s | .int8, s => s.leaf 1
  | .uint16, s | .int16, s => s.leaf 2
  | .uint32, s | .int32, s | .float32, s => s.leaf 4
  | .uint64, s | .int64, s | .float64, s => s.leaf 8
  | .string, s | .wString, s | .boundedString _, s | .boundedWString _, s => s.leaf 4
  | .nested ⟨_, fields⟩, s => if fields.isEmpty then s.zeroByte else syncFields fields s
  | .array n inner, s => (sync inner)^[n] s
  | .sequence inner, s => sync inner (s.leaf 4)
  | .boundedSequence cap inner, s => if cap = 0 then s.zeroWord else sync inner (s.leaf 4)

def syncFields : List Field → Sync → Sync
  | [], s => s
  | ⟨_, ty, _⟩ :: fields, s => syncFields fields (sync ty s)

end

mutual

theorem sync_lost : ∀ ty : FieldType, sync ty .lost = .lost
  | .bool | .uint8 | .int8 | .uint16 | .int16 | .uint32 | .int32 | .float32 | .uint64 | .int64
  | .float64 | .string | .wString | .boundedString _ | .boundedWString _ => rfl
  | .nested ⟨_, fields⟩ => by
    rw [sync]
    split
    · rfl
    · exact syncFields_lost fields
  | .array n inner => Function.iterate_fixed (sync_lost inner) n
  | .sequence inner => sync_lost inner
  | .boundedSequence cap inner => by
    rw [sync]
    split
    · rfl
    · exact sync_lost inner

theorem syncFields_lost : ∀ fields : List Field, syncFields fields .lost = .lost
  | [] => rfl
  | ⟨_, ty, _⟩ :: fields => by rw [syncFields, sync_lost ty, syncFields_lost fields]

end

theorem Sync.leaf_cases (s : Sync) (width : Nat) : s.leaf width = .inStep ∨ s.leaf width = .lost := by
  cases s with
  | lagging written read | inStep => exact ite_eq_or_eq _ _ _
  | lost => exact .inr rfl

mutual

theorem sync_inStep : ∀ ty : FieldType, sync ty .inStep = .inStep ∨ sync ty .inStep = .lost
  | .bool | .uint8 | .int8 | .uint16 | .int16 | .uint32 | .int32 | .float32 | .uint64 | .int64
  | .float64 | .string | .wString | .boundedString _ | .boundedWString _ => Sync.leaf_cases _ _
  | .nested ⟨_, fields⟩ => by
    rw [sync]
    split
    · exact .inl rfl
    · exact syncFields_inStep fields
  | .array n inner => by
    rw [sync]
    rcases sync_inStep inner with same | lost
    · exact .inl (Function.iterate_fixed same n)
    · cases n with
      | zero => exact .inl rfl
      | succ n =>
        rw [Function.iterate_succ_apply, lost]
        exact .inr (Function.iterate_fixed (sync_lost inner) n)
  | .sequence inner => sync_inStep inner
  | .boundedSequence cap inner => by
    rw [sync]
    split
    · exact .inl rfl
    · exact sync_inStep inner

theorem syncFields_inStep : ∀ fields : List Field,
    syncFields fields .inStep = .inStep ∨ syncFields fields .inStep = .lost
  | [] => .inl rfl
  | ⟨_, ty, _⟩ :: fields => by
    rw [syncFields]
    rcases sync_inStep ty with same | lost
    · rw [same]
      exact syncFields_inStep fields
    · rw [lost]
      exact .inr (syncFields_lost fields)

end

/-- Where a lagging reader and the writer may stand. -/
def Sync.Between : Sync → Nat → Nat → Prop
  | .lagging written read, x, y => x = written ∧ y = read ∧ y < x + 4
  | .inStep, x, y => y = x + 4
  | .lost, _, _ => False

theorem Sync.Between.le {s : Sync} {x y : Nat} (between : s.Between x y) : y ≤ x + 4 := by
  cases s with
  | lagging written read => exact between.2.2.le
  | inStep => exact Nat.le_of_eq between
  | lost => cases between

def zeros (n : Nat) : List UInt8 := List.replicate n 0

/-- The reader goes through what the writer wrote, and the zeros ahead of it account for the
difference. -/
def Follows (s s' : Sync) (wire : Wire UInt8) : Prop :=
  ∀ x y, s.Between x y → s'.Between (wire.stop x) (wire.stop y) ∧
    wire y ++ zeros (wire.stop x + 4 - wire.stop y) = zeros (x + 4 - y) ++ wire x

namespace Follows

variable {s s' s'' : Sync} {first second wire : Wire UInt8}

theorem empty : Follows s s Wire.empty := by
  intro x y between
  refine ⟨between, ?_⟩
  simp [Wire.empty, Wire.stop]

theorem andThen (left : Follows s s' first) (right : Follows s' s'' second) :
    Follows s s'' (first.andThen second) := by
  intro x y between
  rcases left x y between with ⟨between', front⟩
  rcases right _ _ between' with ⟨between'', back⟩
  rw [Wire.stop_andThen, Wire.stop_andThen]
  refine ⟨between'', ?_⟩
  calc
    _ = first y ++ (second (first.stop y) ++
        zeros (second.stop (first.stop x) + 4 - second.stop (first.stop y))) := by
      rw [Wire.andThen, List.append_assoc]
      rfl
    _ = first y ++ zeros (first.stop x + 4 - first.stop y) ++ second (first.stop x) := by
      rw [back, List.append_assoc]
    _ = _ := by
      rw [front, List.append_assoc]
      rfl

theorem of_lost : Follows .lost s wire := fun _ _ between => (by cases between)

theorem of_periodic (periodic : wire.Periodic 4) : Follows .inStep .inStep wire := by
  intro x y between
  have same : y = x + 4 := between
  subst same
  have ends : wire.stop (x + 4) = wire.stop x + 4 := by
    rw [Wire.stop, Wire.stop, periodic x]
    omega
  refine ⟨ends, ?_⟩
  rw [ends, periodic x, Nat.sub_self, Nat.sub_self]
  simp [zeros]

theorem align {width : Nat} (found : s.leaf width ≠ .lost) :
    Follows s .inStep (Wire.align 0 width) := by
  cases s with
  | lagging written read =>
    rw [Sync.leaf] at found
    split at found
    case isFalse => exact absurd rfl found
    case isTrue meets =>
      rintro x y ⟨rfl, rfl, behind⟩
      rw [Wire.stop_align, Wire.stop_align]
      refine ⟨meets.2, ?_⟩
      have gap : padding width y = x + 4 - y + padding width x := by omega
      rw [meets.2, Nat.sub_self, zeros, zeros, Wire.align, Wire.align, List.replicate_zero,
        List.append_nil, ← List.replicate_add, gap]
  | inStep =>
    rw [Sync.leaf] at found
    split at found
    case isFalse => exact absurd rfl found
    case isTrue narrow => exact of_periodic (Wire.periodic_align 0 (Nat.dvd_of_mod_eq_zero narrow))
  | lost => exact absurd rfl found

theorem lit (bytes : List UInt8) : Follows .inStep .inStep (Wire.lit bytes) :=
  of_periodic (Wire.periodic_lit bytes)

theorem word {width value : Nat} (found : s.leaf width ≠ .lost) :
    Follows s (s.leaf width) (cdrWord .xcdr1 width value) := by
  rw [(s.leaf_cases width).resolve_right found]
  exact (align found).andThen (lit _)

theorem byte {value : UInt8} (found : s.leaf 1 ≠ .lost) :
    Follows s (s.leaf 1) (Wire.lit [value]) := by
  have whole : (Wire.align (0 : UInt8) 1).andThen (Wire.lit [value]) = Wire.lit [value] := by
    funext offset
    simp [Wire.andThen, Wire.align, Wire.lit, padding, Nat.mod_one]
  rw [← whole, (s.leaf_cases 1).resolve_right found]
  exact (align found).andThen (lit _)

theorem string {text : String} (found : s.leaf 4 ≠ .lost) :
    Follows s (s.leaf 4) (cdrString .xcdr1 text) := by
  have first := @word s 4 ((asBytes text).length + 1) found
  rw [(s.leaf_cases 4).resolve_right found] at first ⊢
  exact first.andThen (lit _)

theorem zeroByte : Follows s s.zeroByte (Wire.lit [0]) := by
  cases s with
  | lagging written read =>
    rintro x y ⟨rfl, rfl, behind⟩
    refine ⟨⟨rfl, rfl, Nat.succ_lt_succ behind⟩, ?_⟩
    have same : x + 1 + 4 - (y + 1) = x + 4 - y := by omega
    rw [Wire.stop_lit, Wire.stop_lit, List.length_singleton, same, Wire.lit]
    exact (List.replicate_succ).symm.trans List.replicate_succ'
  | inStep => exact lit [0]
  | lost => exact of_lost

theorem zeroWord : Follows s s.zeroWord (cdrWord .xcdr1 4 0) := by
  have bytes (offset : Nat) : cdrWord .xcdr1 4 0 offset = zeros (padding 4 offset + 4) := by
    rw [zeros, List.replicate_add]
    rfl
  have stops (offset : Nat) : (cdrWord .xcdr1 4 0).stop offset = offset + padding 4 offset + 4 := by
    rw [Wire.stop, bytes, zeros, List.length_replicate, Nat.add_assoc]
  cases s with
  | lagging written read =>
    rintro x y ⟨rfl, rfl, behind⟩
    have order := add_padding_mono 4 (by decide) behind.le
    rw [padding_add_of_dvd (Nat.dvd_refl 4)] at order
    rw [bytes, bytes, stops, stops, Sync.zeroWord]
    constructor
    · split
      case isTrue meets => exact meets
      case isFalse apart => exact ⟨rfl, rfl, by omega⟩
    · simp only [zeros, List.replicate_append_replicate]
      congr 1
      omega
  | inStep => exact @word .inStep 4 0 (by decide)
  | lost => exact of_lost

theorem many {step : Sync → Sync} {encode : Value → Wire UInt8} (stays : step .lost = .lost)
    {items : List Value} (each : ∀ item ∈ items, ∀ s, step s ≠ .lost →
      Follows s (step s) (encode item)) (found : step^[items.length] s ≠ .lost) :
    Follows s (step^[items.length] s) (Wire.many encode items) := by
  induction items generalizing s with
  | nil => exact empty
  | cons item items ih =>
    rw [List.length_cons, Function.iterate_succ_apply] at found ⊢
    have here : step s ≠ .lost := by
      intro lost
      rw [lost, Function.iterate_fixed stays] at found
      exact found rfl
    exact (each item List.mem_cons_self s here).andThen
      (ih (fun later member => each later (List.mem_cons_of_mem item member)) found)

theorem sequence {step : Sync → Sync} {encode : Value → Wire UInt8} (stays : step .lost = .lost)
    (closed : step .inStep = .inStep ∨ step .inStep = .lost) {items : List Value}
    (each : ∀ item ∈ items, ∀ s, step s ≠ .lost → Follows s (step s) (encode item))
    (found : step (s.leaf 4) ≠ .lost) :
    Follows s (step (s.leaf 4))
      ((cdrWord .xcdr1 4 items.length).andThen (Wire.many encode items)) := by
  rcases s.leaf_cases 4 with step4 | lost
  · have first := @word s 4 items.length (by rw [step4]; exact Sync.noConfusion)
    rw [step4] at first found ⊢
    have same := closed.resolve_right found
    have loop := @many .inStep step encode stays items each
    rw [Function.iterate_fixed same] at loop
    rw [same]
    exact first.andThen (loop Sync.noConfusion)
  · rw [lost, stays] at found
    exact absurd rfl found

end Follows

mutual

theorem follows_of_sync : ∀ (ty : FieldType) (v : Value) (s : Sync), Conforms ty v →
    sync ty s ≠ .lost → Follows s (sync ty s) (typedWire ty v)
  | .bool | .uint8 | .int8 => fun _ _ conforms found => by
    rcases conforms with ⟨value, rfl⟩
    exact Follows.byte found
  | .uint16 | .int16 | .uint32 | .int32 | .float32 | .uint64 | .int64 | .float64 =>
    fun _ _ conforms found => by
    rcases conforms with ⟨value, rfl⟩
    exact Follows.word found
  | .string => fun _ _ conforms found => by
    rcases conforms with ⟨text, rfl⟩
    exact Follows.string found
  | .boundedString _ => fun _ _ conforms found => by
    rcases conforms with ⟨text, rfl, _⟩
    exact Follows.string found
  | .wString | .boundedWString _ => fun _ _ conforms _ => by cases conforms
  | .nested ⟨name, fields⟩ => fun _ s conforms found => by
    rcases conforms with ⟨members, rfl, inside⟩
    rw [sync] at found ⊢
    rw [typedWire]
    cases fields with
    | nil => exact Follows.zeroByte
    | cons field fields => exact followsFields_of_sync (field :: fields) members s inside found
  | .array _ inner => fun _ _ conforms found => by
    rcases conforms with ⟨items, rfl, rfl, inside⟩
    exact Follows.many (sync_lost inner)
      (fun item member s found => follows_of_sync inner item s (inside item member) found) found
  | .sequence inner => fun _ _ conforms found => by
    rcases conforms with ⟨items, rfl, inside⟩
    exact Follows.sequence (sync_lost inner) (sync_inStep inner)
      (fun item member s found => follows_of_sync inner item s (inside item member) found) found
  | .boundedSequence cap inner => fun _ s conforms found => by
    rcases conforms with ⟨items, rfl, bound, inside⟩
    rw [sync] at found ⊢
    rw [typedWire]
    split at found
    case isTrue none =>
      have nothing : items = [] := List.eq_nil_of_length_eq_zero (by omega)
      subst nothing
      rw [if_pos none, Wire.many, Wire.andThen_empty]
      exact Follows.zeroWord
    case isFalse some =>
      rw [if_neg some]
      exact Follows.sequence (sync_lost inner) (sync_inStep inner)
        (fun item member s found => follows_of_sync inner item s (inside item member) found) found

theorem followsFields_of_sync : ∀ (fields : List Field) (members : List Value) (s : Sync),
    ConformsFields fields members → syncFields fields s ≠ .lost →
    Follows s (syncFields fields s) (typedWireFields fields members)
  | [], _, _, conforms, _ => by
    cases conforms
    exact Follows.empty
  | ⟨_, ty, _⟩ :: fields, _, s, conforms, found => by
    rcases conforms with ⟨v, rest, rfl, first, others⟩
    have here : sync ty s ≠ .lost := by
      intro lost
      rw [syncFields, lost] at found
      exact found (syncFields_lost fields)
    exact (follows_of_sync ty v s first here).andThen
      (followsFields_of_sync fields rest _ others found)

end

theorem periodic_cdrWord (width value : Nat) {period : Nat} (divides : width ∣ period) :
    (cdrWord .xcdr1 width value).Periodic period :=
  (Wire.periodic_align 0 divides).andThen (Wire.periodic_lit _)

mutual

theorem typedWire_periodic : ∀ (ty : FieldType) (v : Value), Conforms ty v →
    (typedWire ty v).Periodic 8
  | .bool | .uint8 | .int8 => fun _ conforms => by
    rcases conforms with ⟨value, rfl⟩
    exact Wire.periodic_lit _
  | .uint16 | .int16 => fun _ conforms => by
    rcases conforms with ⟨value, rfl⟩
    exact periodic_cdrWord 2 _ ⟨4, rfl⟩
  | .uint32 | .int32 | .float32 => fun _ conforms => by
    rcases conforms with ⟨value, rfl⟩
    exact periodic_cdrWord 4 _ ⟨2, rfl⟩
  | .uint64 | .int64 | .float64 => fun _ conforms => by
    rcases conforms with ⟨value, rfl⟩
    exact periodic_cdrWord 8 _ ⟨1, rfl⟩
  | .string => fun _ conforms => by
    rcases conforms with ⟨text, rfl⟩
    exact (periodic_cdrWord 4 _ ⟨2, rfl⟩).andThen (Wire.periodic_lit _)
  | .boundedString _ => fun _ conforms => by
    rcases conforms with ⟨text, rfl, _⟩
    exact (periodic_cdrWord 4 _ ⟨2, rfl⟩).andThen (Wire.periodic_lit _)
  | .wString | .boundedWString _ => fun _ conforms => by cases conforms
  | .nested ⟨name, fields⟩ => fun _ conforms => by
    rcases conforms with ⟨members, rfl, inside⟩
    rw [typedWire]
    split
    · exact Wire.periodic_lit _
    · exact typedWireFields_periodic fields members inside
  | .array _ inner => fun _ conforms => by
    rcases conforms with ⟨items, rfl, _, inside⟩
    exact Wire.periodic_many fun item member => typedWire_periodic inner item (inside item member)
  | .sequence inner => fun _ conforms => by
    rcases conforms with ⟨items, rfl, inside⟩
    exact (periodic_cdrWord 4 _ ⟨2, rfl⟩).andThen
      (Wire.periodic_many fun item member => typedWire_periodic inner item (inside item member))
  | .boundedSequence _ inner => fun _ conforms => by
    rcases conforms with ⟨items, rfl, _, inside⟩
    exact (periodic_cdrWord 4 _ ⟨2, rfl⟩).andThen
      (Wire.periodic_many fun item member => typedWire_periodic inner item (inside item member))

theorem typedWireFields_periodic : ∀ (fields : List Field) (members : List Value),
    ConformsFields fields members → (typedWireFields fields members).Periodic 8
  | [], _, conforms => by
    cases conforms
    exact Wire.periodic_empty
  | ⟨_, ty, _⟩ :: fields, _, conforms => by
    rcases conforms with ⟨v, rest, rfl, first, others⟩
    exact (typedWire_periodic ty v first).andThen (typedWireFields_periodic fields rest others)

end

end NanoRos
