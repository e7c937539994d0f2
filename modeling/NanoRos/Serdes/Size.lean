import NanoRos.Serdes.RoundTrip

/-! The static size bound of a message type (`size.rs`), and its soundness for every value of the
type. -/

namespace NanoRos

open LittleEndian Memory

structure SizeBound where
  bytes : Nat
  bounded : Bool
  plain : Bool
  deriving DecidableEq, Repr

def encapsulationHeaderBytes : Nat := 4

def usizeAdd (a b : Nat) : Option Nat := if a + b ≤ usizeMax then some (a + b) else none

def usizeMul (a b : Nat) : Option Nat := if a * b ≤ usizeMax then some (a * b) else none

theorem usizeAdd_eq_some {a b c : Nat} (sum : usizeAdd a b = some c) : c = a + b := by
  rw [usizeAdd] at sum
  split at sum
  · exact (Option.some.inj sum).symm
  · cases sum

def padTo (offset alignment : Nat) (version : EncodingVersion) : Nat :=
  let alignment := alignCap version alignment
  if alignment = 0 then 0 else (alignment - offset % alignment) % alignment

/-- Pad, then a prefix or a number of `width` bytes. -/
def wordBound (version : EncodingVersion) (offset alignment width : Nat) : Option Nat := do
  let o ← usizeAdd offset (padTo offset alignment version)
  usizeAdd o width

/-- One member on top of the offset and the two flags so far. -/
def foldBound (member : Nat → Option (Nat × Bool × Bool)) (s : Nat × Bool × Bool) :
    Option (Nat × Bool × Bool) := do
  let (next, bounded, plain) ← member s.1
  return (next, s.2.1 && bounded, s.2.2 && plain)

/-- `while i < n`, over one and the same element type. -/
def foldItems (member : Nat → Option (Nat × Bool × Bool)) :
    Nat → Nat × Bool × Bool → Option (Nat × Bool × Bool)
  | 0, s => some s
  | n + 1, s => do
    let s ← foldBound member s
    foldItems member n s

/-- The size field XCDR2 puts in front of every struct. -/
def structStart : EncodingVersion → Nat → Option Nat
  | .xcdr1, offset => some offset
  | .xcdr2, offset => wordBound .xcdr2 offset 4 4

mutual

def fieldBound (version : EncodingVersion) : FieldType → Nat → Option (Nat × Bool × Bool)
  | .bool, offset | .uint8, offset | .int8, offset => do
    let o ← usizeAdd offset 1
    return (o, true, true)
  | .uint16, offset | .int16, offset => do
    let o ← wordBound version offset 2 2
    return (o, true, true)
  | .uint32, offset | .int32, offset | .float32, offset => do
    let o ← wordBound version offset 4 4
    return (o, true, true)
  | .uint64, offset | .int64, offset | .float64, offset => do
    let o ← wordBound version offset 8 8
    return (o, true, true)
  | .boundedString n, offset => do
    let o ← wordBound version offset 4 4
    let o ← usizeAdd o n
    let o ← usizeAdd o 1
    return (o, true, false)
  | .boundedWString n, offset => do
    let o ← wordBound version offset 4 4
    let payload ← usizeMul 2 n
    let o ← usizeAdd o payload
    return (o, true, false)
  | .string, offset | .wString, offset | .sequence _, offset => do
    let o ← wordBound version offset 4 4
    return (o, false, false)
  | .array n inner, offset => foldItems (fieldBound version inner) n (offset, true, true)
  | .boundedSequence n inner, offset => do
    let o ← wordBound version offset 4 4
    let (o, bounded, _) ← foldItems (fieldBound version inner) n (o, true, true)
    return (o, bounded, false)
  | .nested ⟨_, fields⟩, offset => do
    let o ← structStart version offset
    fieldsBound version fields (o, true, true)

def fieldsBound (version : EncodingVersion) :
    List Field → Nat × Bool × Bool → Option (Nat × Bool × Bool)
  | [], s => some s
  | ⟨_, ty, _⟩ :: fields, s => do
    let s ← foldBound (fieldBound version ty) s
    fieldsBound version fields s

end

/-- `size_bound`, which `field_bound` also calls for a nested struct. -/
def sizeBound (fields : List Field) (version : EncodingVersion) (currentAlignment : Nat) :
    Option SizeBound := do
  let offset ← structStart version currentAlignment
  let (bytes, bounded, plain) ← fieldsBound version fields (offset, true, true)
  return ⟨bytes, bounded, plain⟩

/-- The outer option is the overflow, the inner one an unbounded type. -/
def maxSerializedSize (fields : List Field) (version : EncodingVersion) : Option (Option Nat) := do
  let bound ← sizeBound fields version 0
  if bound.bounded then
    let total ← usizeAdd encapsulationHeaderBytes bound.bytes
    return some total
  else return none

theorem padTo_eq_padding (offset alignment : Nat) (version : EncodingVersion) :
    padTo offset alignment version = padding (alignCap version alignment) offset := by
  simp only [padTo, padding]
  split
  case isTrue zero => simp [zero]
  case isFalse => rfl

variable {version : EncodingVersion} {offset next : Nat} {member : Nat → Option (Nat × Bool × Bool)}

theorem wordBound_eq_some {alignment width : Nat}
    (sum : wordBound version offset alignment width = some next) :
    next = offset + padding (alignCap version alignment) offset + width := by
  obtain ⟨o, padded, added⟩ := Option.bind_eq_some_iff.mp sum
  rw [usizeAdd_eq_some added, usizeAdd_eq_some padded, padTo_eq_padding]

/-- Every wire of a member ends by the offset the walk computes for it, also when it starts
earlier; a plain member ends exactly there. The flags only ever fall. -/
structure Covers (bound : Nat × Bool × Bool → Option (Nat × Bool × Bool)) (wire : Wire UInt8) :
    Prop where
  flags : ∀ s t, bound s = some t → t.2.1 = true → s.2.1 = true
  exact_flags : ∀ s t, bound s = some t → t.2.2 = true → s.2.2 = true
  stop_le : ∀ s t, bound s = some t → t.2.1 = true → ∀ offset ≤ s.1, wire.stop offset ≤ t.1
  stop_eq : ∀ s t, bound s = some t → t.2.1 = true → t.2.2 = true → wire.stop s.1 = t.1

theorem Covers.andThen {first second : Nat × Bool × Bool → Option (Nat × Bool × Bool)}
    {front back : Wire UInt8} (one : Covers first front) (two : Covers second back) :
    Covers (fun s => first s >>= second) (front.andThen back) where
  flags s t run bounded := by
    obtain ⟨middle, begun, ended⟩ := Option.bind_eq_some_iff.mp run
    exact one.flags s middle begun (two.flags middle t ended bounded)
  exact_flags s t run plain := by
    obtain ⟨middle, begun, ended⟩ := Option.bind_eq_some_iff.mp run
    exact one.exact_flags s middle begun (two.exact_flags middle t ended plain)
  stop_le s t run bounded offset order := by
    obtain ⟨middle, begun, ended⟩ := Option.bind_eq_some_iff.mp run
    rw [Wire.stop_andThen]
    apply two.stop_le middle t ended bounded
    exact one.stop_le s middle begun (two.flags middle t ended bounded) offset order
  stop_eq s t run bounded plain := by
    obtain ⟨middle, begun, ended⟩ := Option.bind_eq_some_iff.mp run
    rw [Wire.stop_andThen, one.stop_eq s middle begun (two.flags middle t ended bounded)
      (two.exact_flags middle t ended plain)]
    exact two.stop_eq middle t ended bounded plain

theorem Covers.empty : Covers some Wire.empty where
  flags s t run bounded := by cases run; exact bounded
  exact_flags s t run plain := by cases run; exact plain
  stop_le s t run bounded offset order := by cases run; exact order
  stop_eq s t run bounded plain := by cases run; rfl

theorem covers_foldBound {wire : Wire UInt8}
    (stop_le : ∀ o next plain, member o = some (next, true, plain) →
      ∀ offset ≤ o, wire.stop offset ≤ next)
    (stop_eq : ∀ o next, member o = some (next, true, true) → wire.stop o = next) :
    Covers (foldBound member) wire where
  flags s t run bounded := by
    obtain ⟨⟨next, b, p⟩, _, same⟩ := Option.bind_eq_some_iff.mp run
    cases same
    exact (Bool.and_eq_true_iff.mp bounded).1
  exact_flags s t run plain := by
    obtain ⟨⟨next, b, p⟩, _, same⟩ := Option.bind_eq_some_iff.mp run
    cases same
    exact (Bool.and_eq_true_iff.mp plain).1
  stop_le s t run bounded offset order := by
    obtain ⟨⟨next, b, p⟩, computed, same⟩ := Option.bind_eq_some_iff.mp run
    cases same
    rw [(Bool.and_eq_true_iff.mp bounded).2] at computed
    exact stop_le s.1 next p computed offset order
  stop_eq s t run bounded plain := by
    obtain ⟨⟨next, b, p⟩, computed, same⟩ := Option.bind_eq_some_iff.mp run
    cases same
    rw [(Bool.and_eq_true_iff.mp bounded).2, (Bool.and_eq_true_iff.mp plain).2] at computed
    exact stop_eq s.1 next computed

def Grows (bound : Nat → Option (Nat × Bool × Bool)) : Prop :=
  ∀ o t, bound o = some t → o ≤ t.1

theorem foldBound_grows (grows : Grows member) (s t : Nat × Bool × Bool)
    (run : foldBound member s = some t) : s.1 ≤ t.1 := by
  rcases Option.bind_eq_some_iff.mp run with ⟨next, computed, same⟩
  cases same
  exact grows s.1 next computed

theorem foldItems_grows (grows : Grows member) (n : Nat) (s t : Nat × Bool × Bool)
    (run : foldItems member n s = some t) : s.1 ≤ t.1 := by
  induction n generalizing s with
  | zero =>
    cases run
    exact Nat.le_refl _
  | succ n ih =>
    rcases Option.bind_eq_some_iff.mp run with ⟨middle, begun, rest⟩
    exact Nat.le_trans (foldBound_grows grows s middle begun) (ih middle rest)

theorem wordBound_grows {alignment width : Nat}
    (sum : wordBound version offset alignment width = some next) : offset ≤ next := by
  rw [wordBound_eq_some sum, Nat.add_assoc]
  exact Nat.le_add_right _ _

theorem structStart_grows (sum : structStart version offset = some next) : offset ≤ next := by
  cases version with
  | xcdr1 =>
    cases sum
    exact Nat.le_refl _
  | xcdr2 => exact wordBound_grows sum

mutual

theorem fieldBound_grows (version : EncodingVersion) :
    ∀ ty : FieldType, Grows (fieldBound version ty)
  | .bool | .uint8 | .int8 => by
    intro o t run
    rcases Option.bind_eq_some_iff.mp run with ⟨next, added, same⟩
    cases same
    rw [usizeAdd_eq_some added]
    exact Nat.le_add_right _ _
  | .uint16 | .int16 | .uint32 | .int32 | .float32 | .uint64 | .int64 | .float64
  | .string | .wString | .sequence _ => by
    intro o t run
    rcases Option.bind_eq_some_iff.mp run with ⟨next, added, same⟩
    cases same
    exact wordBound_grows added
  | .boundedString n => by
    intro o t run
    rcases Option.bind_eq_some_iff.mp run with ⟨counted, added, more⟩
    rcases Option.bind_eq_some_iff.mp more with ⟨payload, grown, last⟩
    rcases Option.bind_eq_some_iff.mp last with ⟨closed, terminated, same⟩
    cases same
    have start := wordBound_grows added
    rw [usizeAdd_eq_some terminated, usizeAdd_eq_some grown]
    omega
  | .boundedWString n => by
    intro o t run
    rcases Option.bind_eq_some_iff.mp run with ⟨counted, added, more⟩
    rcases Option.bind_eq_some_iff.mp more with ⟨payload, _, last⟩
    rcases Option.bind_eq_some_iff.mp last with ⟨closed, grown, same⟩
    cases same
    have start := wordBound_grows added
    rw [usizeAdd_eq_some grown]
    omega
  | .array n inner => by
    intro o t run
    exact foldItems_grows (fieldBound_grows version inner) n _ t run
  | .boundedSequence n inner => by
    intro o t run
    rcases Option.bind_eq_some_iff.mp run with ⟨counted, added, more⟩
    rcases Option.bind_eq_some_iff.mp more with ⟨filled, items, same⟩
    cases same
    exact Nat.le_trans (wordBound_grows added)
      (foldItems_grows (fieldBound_grows version inner) n _ filled items)
  | .nested ⟨_, fields⟩ => by
    intro o t run
    rcases Option.bind_eq_some_iff.mp run with ⟨opened, begun, members⟩
    exact Nat.le_trans (structStart_grows begun) (fieldsBound_grows version fields _ t members)

theorem fieldsBound_grows (version : EncodingVersion) :
    ∀ (fields : List Field) (s t : Nat × Bool × Bool),
    fieldsBound version fields s = some t → s.1 ≤ t.1
  | [], s, t, run => by
    cases run
    exact Nat.le_refl _
  | ⟨_, ty, _⟩ :: fields, s, t, run => by
    rcases Option.bind_eq_some_iff.mp run with ⟨middle, begun, rest⟩
    exact Nat.le_trans (foldBound_grows (fieldBound_grows version ty) s middle begun)
      (fieldsBound_grows version fields middle t rest)

end

variable (version)

theorem alignCap_pos (alignment : Nat) (positive : 0 < alignment) :
    0 < alignCap version alignment := by
  cases version with
  | xcdr1 => exact positive
  | xcdr2 => exact Nat.lt_min.mpr ⟨positive, by decide⟩

theorem stop_cdrWord (width value offset : Nat) : (cdrWord version width value).stop offset =
      offset + padding (alignCap version width) offset + width := by
  rw [cdrWord, Wire.stop_andThen, Wire.stop_align, Wire.stop_lit, length_leBytes]

theorem stop_cdrWord_le (width value : Nat) (positive : 0 < width) {o : Nat} (order : offset ≤ o)
    (sum : wordBound version o width width = some next) :
    (cdrWord version width value).stop offset ≤ next := by
  have later := add_padding_mono (alignCap version width) (alignCap_pos version width positive) order
  rw [stop_cdrWord, wordBound_eq_some sum]
  omega

theorem covers_byte (byte : UInt8)
    (shape : ∀ o, member o = (usizeAdd o 1 >>= fun o => some (o, true, true))) :
    Covers (foldBound member) (Wire.lit [byte]) := by
  apply covers_foldBound
  · intro o next plain computed offset order
    rw [shape] at computed
    rcases Option.bind_eq_some_iff.mp computed with ⟨last, added, same⟩
    cases same
    rw [usizeAdd_eq_some added, Wire.stop_lit]
    exact Nat.add_le_add_right order 1
  · intro o next computed
    rw [shape] at computed
    rcases Option.bind_eq_some_iff.mp computed with ⟨last, added, same⟩
    cases same
    rw [usizeAdd_eq_some added, Wire.stop_lit, List.length_singleton]

theorem covers_word (width value : Nat) (positive : 0 < width)
    (shape : ∀ o, member o = (wordBound version o width width >>= fun o => some (o, true, true))) :
    Covers (foldBound member) (cdrWord version width value) := by
  apply covers_foldBound
  · intro o next plain computed offset order
    rw [shape] at computed
    rcases Option.bind_eq_some_iff.mp computed with ⟨last, added, same⟩
    cases same
    exact stop_cdrWord_le version width value positive order added
  · intro o next computed
    rw [shape] at computed
    rcases Option.bind_eq_some_iff.mp computed with ⟨last, added, same⟩
    cases same
    rw [wordBound_eq_some added, stop_cdrWord]

theorem covers_items {wire : Value → Wire UInt8} (items : List Value)
    (spec : ∀ v ∈ items, Covers (foldBound member) (wire v)) :
    Covers (foldItems member items.length) (Wire.many wire items) := by
  induction items with
  | nil => exact Covers.empty
  | cons v items ih =>
    have first := spec v (by simp)
    have others := ih fun item member => spec item (List.mem_cons_of_mem v member)
    exact first.andThen others

variable (member)

theorem foldItems_add (n m : Nat) (s : Nat × Bool × Bool) :
    foldItems member (n + m) s = (foldItems member n s >>= foldItems member m) := by
  induction n generalizing s with
  | zero => simp [foldItems]
  | succ n ih =>
    rw [Nat.succ_add, foldItems, foldItems]
    cases foldBound member s with
    | none => rfl
    | some next => exact ih next

theorem foldItems_flags (n : Nat) (s t : Nat × Bool × Bool) (run : foldItems member n s = some t)
    (bounded : t.2.1 = true) :
    s.2.1 = true := by
  induction n generalizing s with
  | zero =>
    cases run
    exact bounded
  | succ n ih =>
    rcases Option.bind_eq_some_iff.mp run with ⟨middle, begun, rest⟩
    rcases Option.bind_eq_some_iff.mp begun with ⟨next, _, same⟩
    cases same
    exact (Bool.and_eq_true_iff.mp (ih _ rest)).1

variable {member}

theorem stop_items_le {wire : Value → Wire UInt8} (grows : Grows member) (items : List Value)
    (cap : Nat) (short : items.length ≤ cap)
    (spec : ∀ v ∈ items, Covers (foldBound member) (wire v)) (s t : Nat × Bool × Bool)
    (run : foldItems member cap s = some t) (bounded : t.2.1 = true) (offset : Nat)
    (order : offset ≤ s.1) : (Wire.many wire items).stop offset ≤ t.1 := by
  have split : items.length + (cap - items.length) = cap := by omega
  rw [← split, foldItems_add] at run
  rcases Option.bind_eq_some_iff.mp run with ⟨middle, filled, rest⟩
  have flag := foldItems_flags member _ middle t rest bounded
  calc (Wire.many wire items).stop offset
      ≤ middle.1 := (covers_items items spec).stop_le s middle filled flag offset order
    _ ≤ t.1 := foldItems_grows grows _ middle t rest

theorem stop_delimited (body : Wire UInt8) (offset : Nat) :
    (delimited .xcdr2 body).stop offset = body.stop (offset + padding 4 offset + 4) := by
  rw [Wire.stop, CdrReader.delimited_xcdr2_apply]
  change ((cdrWord .xcdr2 4 _).andThen body).stop offset = _
  rw [Wire.stop_andThen, stop_cdrWord]
  rfl

theorem covers_struct (members : Nat × Bool × Bool → Option (Nat × Bool × Bool)) (body : Wire UInt8)
    (spec : Covers members body) :
    Covers (foldBound fun o => structStart version o >>= fun o => members (o, true, true))
      (delimited version body) := by
  apply covers_foldBound
  · intro o next plain computed offset order
    rcases Option.bind_eq_some_iff.mp computed with ⟨opened, begun, inside⟩
    cases version with
    | xcdr1 =>
      cases begun
      exact spec.stop_le _ _ inside rfl offset order
    | xcdr2 =>
      have later := add_padding_mono 4 (by decide) order
      have place : opened = o + padding 4 o + 4 := wordBound_eq_some begun
      rw [stop_delimited]
      apply spec.stop_le _ _ inside rfl
      rw [place]
      omega
  · intro o next computed
    rcases Option.bind_eq_some_iff.mp computed with ⟨opened, begun, inside⟩
    cases version with
    | xcdr1 =>
      cases begun
      exact spec.stop_eq _ _ inside rfl rfl
    | xcdr2 =>
      have place : opened = o + padding 4 o + 4 := wordBound_eq_some begun
      rw [stop_delimited, ← place]
      exact spec.stop_eq _ _ inside rfl rfl

variable {version}

mutual

theorem fieldBound_covers (version : EncodingVersion) : ∀ (ty : FieldType) (v : Value),
    Conforms ty v → Covers (foldBound (fieldBound version ty)) (cdrWire version ty v)
  | .bool | .uint8 | .int8 => fun _ conforms => by
    rcases conforms with ⟨value, rfl⟩
    exact covers_byte _ fun _ => rfl
  | .uint16 | .int16 => fun _ conforms => by
    rcases conforms with ⟨value, rfl⟩
    exact covers_word version 2 _ (by decide) fun _ => rfl
  | .uint32 | .int32 | .float32 => fun _ conforms => by
    rcases conforms with ⟨value, rfl⟩
    exact covers_word version 4 _ (by decide) fun _ => rfl
  | .uint64 | .int64 | .float64 => fun _ conforms => by
    rcases conforms with ⟨value, rfl⟩
    exact covers_word version 8 _ (by decide) fun _ => rfl
  | .string | .sequence _ => fun _ _ => by
    -- an unbounded member: the walk never answers with the flag up
    apply covers_foldBound
    · intro o next plain computed
      rcases Option.bind_eq_some_iff.mp computed with ⟨_, _, same⟩
      cases same
    · intro o next computed
      rcases Option.bind_eq_some_iff.mp computed with ⟨_, _, same⟩
      cases same
  | .wString => fun _ conforms => by cases conforms
  | .boundedWString _ => fun _ conforms => by cases conforms
  | .boundedString n => fun _ conforms => by
    rcases conforms with ⟨text, rfl, bound⟩
    apply covers_foldBound
    · intro o next plain computed offset order
      rcases Option.bind_eq_some_iff.mp computed with ⟨counted, added, more⟩
      rcases Option.bind_eq_some_iff.mp more with ⟨payload, grown, last⟩
      rcases Option.bind_eq_some_iff.mp last with ⟨closed, terminated, same⟩
      cases same
      have start := stop_cdrWord_le version 4 ((asBytes text).length + 1) (by decide) order added
      simp only [cdrWire, cdrString, Wire.stop_andThen, Wire.stop_lit, List.length_append,
        List.length_singleton]
      rw [usizeAdd_eq_some terminated, usizeAdd_eq_some grown]
      omega
    · intro o next computed
      rcases Option.bind_eq_some_iff.mp computed with ⟨_, _, more⟩
      rcases Option.bind_eq_some_iff.mp more with ⟨_, _, last⟩
      rcases Option.bind_eq_some_iff.mp last with ⟨_, _, same⟩
      cases same
  | .nested ⟨_, fields⟩ => fun _ conforms => by
    rcases conforms with ⟨members, rfl, inside⟩
    exact covers_struct version _ _ (fieldsBound_covers version fields members inside)
  | .array _ inner => fun _ conforms => by
    rcases conforms with ⟨items, rfl, rfl, inside⟩
    have loop := covers_items items fun v member =>
      fieldBound_covers version inner v (inside v member)
    apply covers_foldBound
    · intro o next plain computed offset order
      exact loop.stop_le _ _ computed rfl offset order
    · intro o next computed
      exact loop.stop_eq _ _ computed rfl rfl
  | .boundedSequence cap inner => fun _ conforms => by
    rcases conforms with ⟨items, rfl, bound, inside⟩
    apply covers_foldBound
    · intro o next plain computed offset order
      rcases Option.bind_eq_some_iff.mp computed with ⟨counted, added, more⟩
      rcases Option.bind_eq_some_iff.mp more with ⟨⟨last, flag, _⟩, filled, same⟩
      cases same
      have start := stop_cdrWord_le version 4 items.length (by decide) order added
      simp only [cdrWire, Wire.stop_andThen]
      exact stop_items_le (fieldBound_grows version inner) items cap bound
        (fun v member => fieldBound_covers version inner v (inside v member)) _ _ filled rfl _ start
    · intro o next computed
      rcases Option.bind_eq_some_iff.mp computed with ⟨_, _, more⟩
      rcases Option.bind_eq_some_iff.mp more with ⟨⟨_, _, _⟩, _, same⟩
      cases same

theorem fieldsBound_covers (version : EncodingVersion) :
    ∀ (fields : List Field) (members : List Value), ConformsFields fields members →
    Covers (fieldsBound version fields) (cdrWireFields version fields members)
  | [], _, conforms => by
    cases conforms
    exact Covers.empty
  | ⟨_, ty, _⟩ :: fields, _, conforms => by
    rcases conforms with ⟨v, rest, rfl, first, others⟩
    have head := fieldBound_covers version ty v first
    have tail := fieldsBound_covers version fields rest others
    exact head.andThen tail

end

theorem messageSize_le_maxSerializedSize (version : EncodingVersion) (typeName : String)
    (schema : List Field) (v : Value) (max : Nat)
    (found : maxSerializedSize schema version = some (some max))
    (conforms : Conforms (.nested ⟨typeName, schema⟩) v) :
    messageSize version typeName schema v ≤ max ∧
      ∀ bound, sizeBound schema version 0 = some bound → bound.plain = true →
        messageSize version typeName schema v = max := by
  have covered := fieldBound_covers version (.nested ⟨typeName, schema⟩) v conforms
  rcases Option.bind_eq_some_iff.mp found with ⟨bound, walked, headed⟩
  split at headed
  case isFalse => cases headed
  case isTrue bounded =>
    rcases Option.bind_eq_some_iff.mp headed with ⟨total, added, same⟩
    cases same
    rcases Option.bind_eq_some_iff.mp walked with ⟨start, begun, inside⟩
    rcases Option.bind_eq_some_iff.mp inside with ⟨⟨bytes, b, p⟩, members, whole⟩
    cases whole
    cases bounded
    have run : foldBound (fieldBound version (.nested ⟨typeName, schema⟩)) (0, true, true) =
        some (bytes, true, p) := by
      simp only [foldBound, fieldBound, begun, Option.bind_some, members, Option.bind_eq_bind]
      rfl
    have sum := usizeAdd_eq_some added
    simp only [encapsulationHeaderBytes] at sum
    constructor
    · have stop := covered.stop_le _ _ run rfl 0 (Nat.le_refl 0)
      simp only [Wire.stop, Nat.zero_add] at stop
      rw [messageSize, sum]
      omega
    · intro again rewalked plain
      rw [walked] at rewalked
      cases rewalked
      have stop := covered.stop_eq _ _ run rfl plain
      simp only [Wire.stop, Nat.zero_add] at stop
      rw [messageSize, sum, stop]

/-- A buffer of the static bound takes every message of the type, and a plain type fills it. -/
theorem maxSerializedSize_sound (version : EncodingVersion) (typeName : String)
    (schema : List Field) (v : Value) (max : Nat)
    (found : maxSerializedSize schema version = some (some max))
    (conforms : Conforms (.nested ⟨typeName, schema⟩) v) (buf : List UInt8) :
    (∀ bytes, writeMessage version typeName schema v buf = .ok bytes → bytes.length ≤ max ∧
        ∀ bound, sizeBound schema version 0 = some bound → bound.plain = true →
          bytes.length = max) ∧
    (LengthsFit (.nested ⟨typeName, schema⟩) v → max ≤ buf.length →
      ∃ bytes, writeMessage version typeName schema v buf = .ok bytes) := by
  rcases messageSize_le_maxSerializedSize version typeName schema v max found conforms with
    ⟨below, exactly⟩
  constructor
  · intro bytes written
    rcases (writeMessage_eq_ok_iff version typeName schema v buf bytes conforms).mp written with
      ⟨_, _, rfl⟩
    rw [List.length_append, length_messageHeader]
    exact ⟨below, exactly⟩
  · intro lengths room
    exact ⟨_, writeMessage_eq_ok version typeName schema v buf conforms lengths
      (Nat.le_trans below room)⟩

theorem maxSerializedSize_labelled :
    ∃ bytes, writeMessage .xcdr2 "Labelled"
        [⟨"label", .boundedString 5, 0⟩, ⟨"stamp", .nested ⟨"Time", [⟨"sec", .int32, 0⟩]⟩, 8⟩]
        (.struct [.str "", .struct [.i32 7]]) (List.replicate 28 0) = .ok bytes ∧
      bytes.length ≤ 28 := by
  have sound := maxSerializedSize_sound .xcdr2 "Labelled"
    [⟨"label", .boundedString 5, 0⟩, ⟨"stamp", .nested ⟨"Time", [⟨"sec", .int32, 0⟩]⟩, 8⟩]
    (.struct [.str "", .struct [.i32 7]]) 28 (by decide)
    ⟨_, rfl, _, _, rfl, ⟨"", rfl, by decide⟩, _, _, rfl, ⟨_, rfl, _, _, rfl, ⟨7, rfl⟩, rfl⟩, rfl⟩
    (List.replicate 28 0)
  rcases sound.2 (by simp [LengthsFit, LengthsFitFields, u32Max, asBytes]) (by decide) with
    ⟨bytes, written⟩
  exact ⟨bytes, written, (sound.1 bytes written).1⟩

end NanoRos
