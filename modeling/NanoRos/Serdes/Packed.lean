import NanoRos.Serdes.RoundTrip

/-! The `packed` provider (`nros-serdes-packed`): no padding, no terminators, nothing around a
struct. -/

namespace NanoRos

open LittleEndian Memory

structure PackedSink where
  out : List UInt8
  pos : Nat

namespace PackedSink

def new (out : List UInt8) : PackedSink := ⟨out, 0⟩

def position (k : PackedSink) : Nat := k.pos

def raw (k : PackedSink) (bytes : List UInt8) : Except SchemaError PackedSink :=
  if k.pos + bytes.length > k.out.length then .error .bufferTooSmall
  else .ok ⟨overwrite k.out k.pos bytes, k.pos + bytes.length⟩

def lenPrefix (k : PackedSink) (n : Nat) : Except SchemaError PackedSink :=
  if n > u32Max then .error .malformed else k.raw (leBytes 4 n)

instance : SchemaSink PackedSink where
  seqBegin len k := k.lenPrefix len
  putBool v k := k.raw [if v then 1 else 0]
  putU8 v k := k.raw [v]
  putI8 v k := k.raw [v.toUInt8]
  putU16 v k := k.raw (leBytes 2 v.toNat)
  putI16 v k := k.raw (leBytes 2 v.toUInt16.toNat)
  putU32 v k := k.raw (leBytes 4 v.toNat)
  putI32 v k := k.raw (leBytes 4 v.toUInt32.toNat)
  putU64 v k := k.raw (leBytes 8 v.toNat)
  putI64 v k := k.raw (leBytes 8 v.toUInt64.toNat)
  putF32 v k := k.raw (leBytes 4 v.bits.toNat)
  putF64 v k := k.raw (leBytes 8 v.bits.toNat)
  putStr v k := do
    let k ← k.lenPrefix (asBytes v).length
    k.raw (asBytes v)

end PackedSink

structure PackedSource where
  bytes : List UInt8
  pos : Nat

namespace PackedSource

def new (bytes : List UInt8) : PackedSource := ⟨bytes, 0⟩

def position (s : PackedSource) : Nat := s.pos

def raw (s : PackedSource) (n : Nat) : Except SchemaError (List UInt8 × PackedSource) :=
  if s.pos + n > s.bytes.length then .error .truncated
  else .ok (slice s.bytes s.pos n, ⟨s.bytes, s.pos + n⟩)

/-- `from_le_bytes` of the next `width` bytes. -/
def fixed (width : Nat) (s : PackedSource) : Except SchemaError (Nat × PackedSource) := do
  let (bytes, s) ← s.raw width
  return (leNat bytes, s)

def lenPrefix (s : PackedSource) : Except SchemaError (Nat × PackedSource) := fixed 4 s

def fixedAs {α : Type} (width : Nat) (cast : Nat → α) (s : PackedSource) :
    Except SchemaError (α × PackedSource) := do
  let (value, s) ← fixed width s
  return (cast value, s)

instance : SchemaSource PackedSource where
  seqBegin s := do
    let (n, s) ← s.lenPrefix
    if n > s.bytes.length - s.pos then throw .truncated
    return (n, s)
  takeBool s := do
    let (value, s) ← fixed 1 s
    match value with
    | 0 => return (false, s)
    | 1 => return (true, s)
    | _ => throw .malformed
  takeU8 := fixedAs 1 UInt8.ofNat
  takeI8 := fixedAs 1 fun n => (UInt8.ofNat n).toInt8
  takeU16 := fixedAs 2 UInt16.ofNat
  takeI16 := fixedAs 2 fun n => (UInt16.ofNat n).toInt16
  takeU32 := fixedAs 4 UInt32.ofNat
  takeI32 := fixedAs 4 fun n => (UInt32.ofNat n).toInt32
  takeU64 := fixedAs 8 UInt64.ofNat
  takeI64 := fixedAs 8 fun n => (UInt64.ofNat n).toInt64
  takeF32 := fixedAs 4 fun n => ⟨UInt32.ofNat n⟩
  takeF64 := fixedAs 8 fun n => ⟨UInt64.ofNat n⟩
  takeStr s := do
    let (n, s) ← s.lenPrefix
    let (bytes, s) ← s.raw n
    match fromUtf8 bytes with
    | some text => return (text, s)
    | none => throw .malformed

end PackedSource

namespace Packed

/-- The bytes written, and the output buffer behind them. -/
def serialize (msg : CdrReader) (typeName : String) (schema : List Field) (out : List UInt8) :
    Except SchemaError (Nat × List UInt8) := do
  let (_, sink) ← encodeFromCdr msg typeName schema (PackedSink.new out)
  return (sink.position, sink.out)

/-- The bytes consumed, and the writer behind the message. -/
def deserialize (bytes : List UInt8) (typeName : String) (schema : List Field)
    (msg : CdrWriter) : Except SchemaError (Nat × CdrWriter) := do
  let (source, msg) ← decodeToCdr (PackedSource.new bytes) typeName schema msg
  return (source.position, msg)

end Packed

mutual

/-- The packed form of a value, the same at every position. -/
def packedOne : FieldType → Value → List UInt8
  | .bool, .bool b => [if b then 1 else 0]
  | .uint8, .u8 n => [n]
  | .int8, .i8 n => [n.toUInt8]
  | .uint16, .u16 n => leBytes 2 n.toNat
  | .int16, .i16 n => leBytes 2 n.toUInt16.toNat
  | .uint32, .u32 n => leBytes 4 n.toNat
  | .int32, .i32 n => leBytes 4 n.toUInt32.toNat
  | .uint64, .u64 n => leBytes 8 n.toNat
  | .int64, .i64 n => leBytes 8 n.toUInt64.toNat
  | .float32, .f32 x => leBytes 4 x.bits.toNat
  | .float64, .f64 x => leBytes 8 x.bits.toNat
  | .string, .str s => leBytes 4 (asBytes s).length ++ asBytes s
  | .boundedString _, .str s => leBytes 4 (asBytes s).length ++ asBytes s
  | .nested ⟨_, fields⟩, .struct members => packedFields fields members
  | .array _ inner, .array items => items.flatMap (packedOne inner)
  | .sequence inner, .seq items => leBytes 4 items.length ++ items.flatMap (packedOne inner)
  | .boundedSequence _ inner, .seq items =>
    leBytes 4 items.length ++ items.flatMap (packedOne inner)
  | _, _ => []

def packedFields : List Field → List Value → List UInt8
  | ⟨_, ty, _⟩ :: fields, v :: members => packedOne ty v ++ packedFields fields members
  | _, _ => []

end

namespace PackedSink

def after (k : PackedSink) (bytes : List UInt8) : PackedSink :=
  ⟨overwrite k.out k.pos bytes, k.pos + bytes.length⟩

/-- The output has room for `n` more bytes. -/
def Fits (k : PackedSink) (n : Nat) : Prop := k.pos + n ≤ k.out.length

section

variable (k : PackedSink)

theorem raw_eq_ok (bytes : List UInt8) (fits : k.Fits bytes.length) :
    k.raw bytes = .ok (k.after bytes) := if_neg (Nat.not_lt.mpr fits)

theorem after_nil : k.after [] = k := by
  simp [after, overwrite_nil]

theorem after_after (first second : List UInt8) (fits : k.Fits first.length) :
    (k.after first).after second = k.after (first ++ second) := by
  simp only [after, overwrite_append k.out k.pos first second fits, List.length_append,
    Nat.add_assoc]

theorem Fits.split {k : PackedSink} {first second : List UInt8}
    (fits : k.Fits (first ++ second).length) :
    k.Fits first.length ∧ (k.after first).Fits second.length := by
  rw [Fits, List.length_append] at fits
  have front : k.pos + first.length ≤ k.out.length := by omega
  refine ⟨front, ?_⟩
  rw [Fits, after, length_overwrite _ _ _ front, Nat.add_assoc]
  exact fits

theorem lenPrefix_eq_ok (n : Nat) (small : n ≤ u32Max) (fits : k.Fits 4) :
    k.lenPrefix n = .ok (k.after (leBytes 4 n)) := by
  rw [lenPrefix, if_neg (Nat.not_lt.mpr small)]
  exact k.raw_eq_ok _ (by rw [length_leBytes]; exact fits)

theorem putStr_eq_ok (text : String) (small : (asBytes text).length + 1 ≤ u32Max)
    (fits : k.Fits (leBytes 4 (asBytes text).length ++ asBytes text).length) :
    SchemaSink.putStr text k = .ok (k.after (leBytes 4 (asBytes text).length ++ asBytes text)) := by
  rcases fits.split with ⟨front, back⟩
  have counted := k.lenPrefix_eq_ok (asBytes text).length (by omega)
    (by rw [length_leBytes] at front; exact front)
  change (k.lenPrefix (asBytes text).length >>= fun k => k.raw (asBytes text)) = _
  rw [counted, ok_bind, raw_eq_ok _ _ back, after_after k _ _ front]

end

theorem foldlM_after (push : Value → PackedSink → Except SchemaError PackedSink)
    (packed : Value → List UInt8) (items : List Value)
    (spec : ∀ v ∈ items, ∀ k : PackedSink, k.Fits (packed v).length →
      push v k = .ok (k.after (packed v)))
    (k : PackedSink) (fits : k.Fits (items.flatMap packed).length) :
    items.foldlM (fun k v => push v k) k = .ok (k.after (items.flatMap packed)) := by
  induction items generalizing k with
  | nil => rw [List.flatMap_nil, after_nil]; rfl
  | cons v items ih =>
    rw [List.flatMap_cons] at fits
    rcases fits.split with ⟨front, back⟩
    have others := ih (fun item member => spec item (List.mem_cons_of_mem v member)) _ back
    rw [List.foldlM_cons, spec v (by simp) k front, ok_bind, others, after_after k _ _ front,
      List.flatMap_cons]

theorem pushItems_packed (inner : FieldType) (items : List Value) (k : PackedSink)
    (small : items.length ≤ u32Max)
    (fits : k.Fits (leBytes 4 items.length ++ items.flatMap (packedOne inner)).length)
    (spec : ∀ k : PackedSink, k.Fits (items.flatMap (packedOne inner)).length →
      items.foldlM (fun k v => pushOne inner v k) k =
        .ok (k.after (items.flatMap (packedOne inner)))) :
    pushOne (.sequence inner) (.seq items) k =
      .ok (k.after (leBytes 4 items.length ++ items.flatMap (packedOne inner))) := by
  rcases fits.split with ⟨front, back⟩
  have counted := k.lenPrefix_eq_ok items.length small (by rw [length_leBytes] at front; exact front)
  change (k.lenPrefix items.length >>= fun k =>
    items.foldlM (fun k v => pushOne inner v k) k >>= fun k => .ok k) = _
  rw [counted, ok_bind, spec _ back, ok_bind, after_after k _ _ front]

mutual

theorem pushOne_packed : ∀ (ty : FieldType) (v : Value) (k : PackedSink), Conforms ty v →
    LengthsFit ty v → k.Fits (packedOne ty v).length →
    pushOne ty v k = .ok (k.after (packedOne ty v))
  | .bool | .uint8 | .int8 | .uint16 | .int16 | .uint32 | .int32 | .uint64 | .int64 | .float32
  | .float64 => fun _ k conforms _ fits => by
    rcases conforms with ⟨value, rfl⟩
    exact k.raw_eq_ok _ fits
  | .string => fun _ k conforms lengths fits => by
    rcases conforms with ⟨text, rfl⟩
    exact k.putStr_eq_ok text lengths fits
  | .boundedString _ => fun _ k conforms lengths fits => by
    rcases conforms with ⟨text, rfl, _⟩
    exact k.putStr_eq_ok text lengths fits
  | .wString => fun _ _ conforms _ _ => by cases conforms
  | .boundedWString _ => fun _ _ conforms _ _ => by cases conforms
  | .nested ⟨name, fields⟩ => fun _ k conforms lengths fits => by
    rcases conforms with ⟨members, rfl, inside⟩
    have filled := pushFields_packed fields members k inside lengths fits
    change (pushFields fields members k >>= fun k => .ok k) = _
    rw [filled]
    rfl
  | .array n inner => fun _ k conforms lengths fits => by
    rcases conforms with ⟨items, rfl, rfl, inside⟩
    have filled := foldlM_after (pushOne inner) (packedOne inner) items
      (fun v member k fits => pushOne_packed inner v k (inside v member) (lengths v member) fits)
      k fits
    change (items.foldlM (fun k v => pushOne inner v k) k >>= fun k => .ok k) = _
    rw [filled]
    rfl
  | .sequence inner => fun _ k conforms lengths fits => by
    rcases conforms with ⟨items, rfl, inside⟩
    exact pushItems_packed inner items k lengths.1 fits fun k fits =>
      foldlM_after (pushOne inner) (packedOne inner) items
        (fun v member k fits =>
          pushOne_packed inner v k (inside v member) (lengths.2 v member) fits) k fits
  | .boundedSequence _ inner => fun _ k conforms lengths fits => by
    rcases conforms with ⟨items, rfl, _, inside⟩
    exact pushItems_packed inner items k lengths.1 fits fun k fits =>
      foldlM_after (pushOne inner) (packedOne inner) items
        (fun v member k fits =>
          pushOne_packed inner v k (inside v member) (lengths.2 v member) fits) k fits

theorem pushFields_packed : ∀ (fields : List Field) (members : List Value) (k : PackedSink),
    ConformsFields fields members → LengthsFitFields fields members →
    k.Fits (packedFields fields members).length →
    pushFields fields members k = .ok (k.after (packedFields fields members))
  | [], _, k, conforms, _, _ => by
    cases conforms
    exact congrArg Except.ok k.after_nil.symm
  | ⟨name, ty, offset⟩ :: fields, _, k, conforms, lengths, fits => by
    rcases conforms with ⟨v, rest, rfl, first, others⟩
    rw [packedFields] at fits
    rcases fits.split with ⟨front, back⟩
    have one := pushOne_packed ty v k first lengths.1 front
    have more := pushFields_packed fields rest _ others lengths.2 back
    change (pushOne ty v k >>= fun k => pushFields fields rest k) = _
    rw [one, ok_bind, more, after_after k _ _ front, packedFields]

end

end PackedSink

mutual

/-- The shapes codegen emits: no empty nested struct, no empty array. Every element of a sequence
is then at least one byte of packed wire. -/
def Packable : FieldType → Prop
  | .nested ⟨_, fields⟩ => fields ≠ [] ∧ PackableFields fields
  | .array n inner => 1 ≤ n ∧ Packable inner
  | .sequence inner => Packable inner
  | .boundedSequence _ inner => Packable inner
  | _ => True

def PackableFields : List Field → Prop
  | [] => True
  | ⟨_, ty, _⟩ :: fields => Packable ty ∧ PackableFields fields

end

mutual

theorem packedOne_pos : ∀ (ty : FieldType) (v : Value), Packable ty → Conforms ty v →
    1 ≤ (packedOne ty v).length
  | .bool | .uint8 | .int8 => fun _ _ conforms => by
    rcases conforms with ⟨value, rfl⟩
    exact Nat.le_refl 1
  | .uint16 | .int16 | .uint32 | .int32 | .uint64 | .int64 | .float32 | .float64 =>
    fun _ _ conforms => by
    rcases conforms with ⟨value, rfl⟩
    simp only [packedOne, length_leBytes]
    decide
  | .string => fun _ _ conforms => by
    rcases conforms with ⟨text, rfl⟩
    simp only [packedOne, List.length_append, length_leBytes]
    omega
  | .boundedString _ => fun _ _ conforms => by
    rcases conforms with ⟨text, rfl, _⟩
    simp only [packedOne, List.length_append, length_leBytes]
    omega
  | .wString => fun _ _ conforms => by cases conforms
  | .boundedWString _ => fun _ _ conforms => by cases conforms
  | .nested ⟨_, fields⟩ => fun _ shape conforms => by
    rcases conforms with ⟨members, rfl, inside⟩
    exact packedFields_pos fields members shape.1 shape.2 inside
  | .array _ inner => fun _ shape conforms => by
    rcases conforms with ⟨items, rfl, rfl, inside⟩
    rcases items with _ | ⟨first, rest⟩
    · exact absurd shape.1 (by decide)
    · have head := packedOne_pos inner first shape.2 (inside first (by simp))
      simp only [packedOne, List.flatMap_cons, List.length_append]
      omega
  | .sequence inner | .boundedSequence _ inner => fun _ _ conforms => by
    rcases conforms with ⟨items, rfl, _⟩
    simp only [packedOne, List.length_append, length_leBytes]
    omega

theorem packedFields_pos : ∀ (fields : List Field) (members : List Value), fields ≠ [] →
    PackableFields fields → ConformsFields fields members → 1 ≤ (packedFields fields members).length
  | [], _, nonempty, _, _ => absurd rfl nonempty
  | ⟨_, ty, _⟩ :: fields, _, _, shapes, conforms => by
    rcases conforms with ⟨v, rest, rfl, first, _⟩
    have head := packedOne_pos ty v shapes.1 first
    simp only [packedFields, List.length_append]
    omega

end

theorem length_le_flatMap {packed : Value → List UInt8} (items : List Value)
    (spec : ∀ v ∈ items, 1 ≤ (packed v).length) :
    items.length ≤ (items.flatMap packed).length := by
  induction items with
  | nil => exact Nat.le_refl 0
  | cons v items ih =>
    have head := spec v (by simp)
    have others := ih fun item member => spec item (List.mem_cons_of_mem v member)
    rw [List.flatMap_cons, List.length_append, List.length_cons]
    omega

namespace PackedSource

/-- The bytes ahead of the source start with `wire`. -/
structure Holds (s : PackedSource) (wire : List UInt8) : Prop where
  within : s.pos ≤ s.bytes.length
  ahead : wire <+: s.bytes.drop s.pos

def skip (s : PackedSource) (n : Nat) : PackedSource := ⟨s.bytes, s.pos + n⟩

theorem Holds.room {s : PackedSource} {wire : List UInt8} (holds : s.Holds wire) :
    s.pos + wire.length ≤ s.bytes.length :=
  length_of_isPrefix_drop _ _ _ holds.ahead holds.within

theorem Holds.split {s : PackedSource} {first second : List UInt8}
    (holds : s.Holds (first ++ second)) :
    s.Holds first ∧ (s.skip first.length).Holds second := by
  rcases (append_isPrefix_drop _ _ _ _).mp holds.ahead with ⟨front, back⟩
  have start : s.Holds first := ⟨holds.within, front⟩
  exact ⟨start, start.room, back⟩

section

variable (s : PackedSource)

theorem skip_skip (first second : List UInt8) :
    (s.skip first.length).skip second.length = s.skip (first ++ second).length := by
  simp only [skip, List.length_append, Nat.add_assoc]

theorem raw_of_holds (wire : List UInt8) (holds : s.Holds wire) :
    s.raw wire.length = .ok (wire, s.skip wire.length) := by
  have room := holds.room
  rw [raw, if_neg (Nat.not_lt.mpr room), slice_of_isPrefix_drop _ _ _ holds.ahead]
  rfl

theorem fixed_of_holds (width value : Nat) (small : value < 256 ^ width)
    (holds : s.Holds (leBytes width value)) :
    fixed width s = .ok (value, s.skip width) := by
  have found := s.raw_of_holds _ holds
  rw [length_leBytes] at found
  simp only [fixed, found, ok_bind, pure_eq_ok, leNat_leBytes, Nat.mod_eq_of_lt small]

theorem fixed_byte_of_holds (byte : UInt8) (holds : s.Holds [byte]) :
    fixed 1 s = .ok (byte.toNat, s.skip 1) := by
  have same : leBytes 1 byte.toNat = [byte] := by
    rw [leBytes, leBytes, Nat.mod_eq_of_lt byte.toNat_lt, UInt8.ofNat_toNat]
  apply s.fixed_of_holds 1 _ byte.toNat_lt
  rw [same]
  exact holds

theorem takeAs_of_holds {α : Type} (wrap : α → Value) (cast : Nat → α) (s : PackedSource)
    (width value : Nat) (small : value < 256 ^ width) (holds : s.Holds (leBytes width value))
    {result : α} (same : cast value = result) :
    takeAs wrap (fixedAs width cast) s =
      .ok (wrap result, s.skip (leBytes width value).length) := by
  rw [takeAs, fixedAs, fixed_of_holds s width value small holds, length_leBytes, ← same]
  rfl

theorem takeAs_byte_of_holds {α : Type} (wrap : α → Value) (cast : Nat → α) (s : PackedSource)
    (byte : UInt8) (holds : s.Holds [byte]) {result : α} (same : cast byte.toNat = result) :
    takeAs wrap (fixedAs 1 cast) s = .ok (wrap result, s.skip 1) := by
  rw [takeAs, fixedAs, fixed_byte_of_holds s byte holds, ← same]
  rfl

theorem takeStr_of_holds (text : String) (small : (asBytes text).length + 1 ≤ u32Max)
    (holds : s.Holds (leBytes 4 (asBytes text).length ++ asBytes text)) :
    SchemaSource.takeStr s =
      .ok (text, s.skip (leBytes 4 (asBytes text).length ++ asBytes text).length) := by
  rcases holds.split with ⟨front, back⟩
  have counted := s.fixed_of_holds 4 (asBytes text).length
    (by simp only [u32Max] at small; omega) front
  rw [length_leBytes] at back
  have payload := raw_of_holds _ _ back
  change (s.lenPrefix >>= fun counted => counted.2.raw counted.1 >>= fun read =>
    match fromUtf8 read.1 with
    | some text => .ok (text, read.2)
    | none => .error .malformed) = _
  rw [lenPrefix, counted, ok_bind, payload, ok_bind, fromUtf8_asBytes, ← skip_skip, length_leBytes]

theorem seqBegin_of_holds (n : Nat) (elements : List UInt8) (small : n ≤ u32Max)
    (covered : n ≤ elements.length) (holds : s.Holds (leBytes 4 n ++ elements)) :
    SchemaSource.seqBegin s = .ok (n, s.skip 4) := by
  rcases holds.split with ⟨front, back⟩
  have counted := s.fixed_of_holds 4 n (by simp only [u32Max] at small; omega) front
  rw [length_leBytes] at back
  have room := back.room
  have enough : ¬ n > (s.skip 4).bytes.length - (s.skip 4).pos := by omega
  change (s.lenPrefix >>= fun counted => if counted.1 > counted.2.bytes.length - counted.2.pos
    then .error .truncated else .ok (counted.1, counted.2)) = _
  rw [lenPrefix, counted, ok_bind, if_neg enough]

end

variable (pull : PackedSource → Except SchemaError (Value × PackedSource))

theorem pullItems_packed (packed : Value → List UInt8) (items : List Value)
    (spec : ∀ v ∈ items, ∀ s : PackedSource, s.Holds (packed v) →
      pull s = .ok (v, s.skip (packed v).length)) (s : PackedSource)
    (holds : s.Holds (items.flatMap packed)) :
    pullItems pull items.length s = .ok (items, s.skip (items.flatMap packed).length) := by
  induction items generalizing s with
  | nil => rfl
  | cons v items ih =>
    rw [List.flatMap_cons] at holds
    rcases holds.split with ⟨front, back⟩
    have first := spec v (by simp) s front
    have others := ih (fun item member => spec item (List.mem_cons_of_mem v member)) _ back
    simp only [List.length_cons, pullItems, first, ok_bind, others, pure_eq_ok, skip_skip,
      List.flatMap_cons]

theorem pullSequence_packed (packed : Value → List UInt8) (items : List Value)
    (spec : ∀ v ∈ items, ∀ s : PackedSource, s.Holds (packed v) →
      pull s = .ok (v, s.skip (packed v).length)) (positive : ∀ v ∈ items, 0 < (packed v).length)
    (fits : items.length ≤ u32Max) (s : PackedSource)
    (holds : s.Holds (leBytes 4 items.length ++ items.flatMap packed)) :
    SchemaSource.seqBegin s = .ok (items.length, s.skip 4) ∧
    pullItems pull items.length (s.skip 4) =
      .ok (items, s.skip (leBytes 4 items.length ++ items.flatMap packed).length) := by
  have covered := length_le_flatMap items positive
  have filled := pullItems_packed pull packed items spec _ holds.split.2
  rw [length_leBytes] at filled
  refine ⟨s.seqBegin_of_holds items.length _ fits covered holds, ?_⟩
  rw [filled, ← skip_skip, length_leBytes]

theorem pullStruct_of_fields {fields : List Field} {s rest : PackedSource} {members : List Value}
    (name : String) (filled : pullFields fields s = .ok (members, rest)) :
    pullOne (.nested ⟨name, fields⟩) s = .ok (.struct members, rest) := by
  change (pullFields fields s >>= fun read => .ok (Value.struct read.1, read.2)) = _
  rw [filled]
  rfl

mutual

theorem pullOne_packed : ∀ (ty : FieldType) (v : Value) (s : PackedSource), Packable ty →
    Conforms ty v → LengthsFit ty v → s.Holds (packedOne ty v) →
    pullOne ty s = .ok (v, s.skip (packedOne ty v).length)
  | .bool, _, s, _, conforms, _, holds => by
    rcases conforms with ⟨b, rfl⟩
    have byte := s.fixed_byte_of_holds _ holds
    cases b with
    | false | true =>
      change (fixed 1 s >>= _) >>= _ = _
      rw [byte]
      rfl
  | .uint8, _, s, _, conforms, _, holds => by
    rcases conforms with ⟨n, rfl⟩
    exact takeAs_byte_of_holds _ UInt8.ofNat s n holds (by simp)
  | .int8, _, s, _, conforms, _, holds => by
    rcases conforms with ⟨n, rfl⟩
    exact takeAs_byte_of_holds _ (fun n => (UInt8.ofNat n).toInt8) s n.toUInt8 holds
      (by rw [UInt8.ofNat_toNat, Int8.toInt8_toUInt8])
  | .uint16, _, s, _, conforms, _, holds => by
    rcases conforms with ⟨n, rfl⟩
    exact takeAs_of_holds _ UInt16.ofNat s 2 n.toNat n.toNat_lt holds (by simp)
  | .int16, _, s, _, conforms, _, holds => by
    rcases conforms with ⟨n, rfl⟩
    exact takeAs_of_holds _ (fun n => (UInt16.ofNat n).toInt16) s 2 n.toUInt16.toNat
      n.toUInt16.toNat_lt holds (by simp)
  | .uint32, _, s, _, conforms, _, holds => by
    rcases conforms with ⟨n, rfl⟩
    exact takeAs_of_holds _ UInt32.ofNat s 4 n.toNat n.toNat_lt holds (by simp)
  | .int32, _, s, _, conforms, _, holds => by
    rcases conforms with ⟨n, rfl⟩
    exact takeAs_of_holds _ (fun n => (UInt32.ofNat n).toInt32) s 4 n.toUInt32.toNat
      n.toUInt32.toNat_lt holds (by simp)
  | .uint64, _, s, _, conforms, _, holds => by
    rcases conforms with ⟨n, rfl⟩
    exact takeAs_of_holds _ UInt64.ofNat s 8 n.toNat n.toNat_lt holds (by simp)
  | .int64, _, s, _, conforms, _, holds => by
    rcases conforms with ⟨n, rfl⟩
    exact takeAs_of_holds _ (fun n => (UInt64.ofNat n).toInt64) s 8 n.toUInt64.toNat
      n.toUInt64.toNat_lt holds (by simp)
  | .float32, _, s, _, conforms, _, holds => by
    rcases conforms with ⟨x, rfl⟩
    exact takeAs_of_holds _ (fun n => (⟨UInt32.ofNat n⟩ : F32)) s 4 x.bits.toNat
      x.bits.toNat_lt holds (by simp)
  | .float64, _, s, _, conforms, _, holds => by
    rcases conforms with ⟨x, rfl⟩
    exact takeAs_of_holds _ (fun n => (⟨UInt64.ofNat n⟩ : F64)) s 8 x.bits.toNat
      x.bits.toNat_lt holds (by simp)
  | .string, _, s, _, conforms, lengths, holds => by
    rcases conforms with ⟨text, rfl⟩
    have taken := s.takeStr_of_holds text lengths holds
    simp only [pullOne, takeAs, taken, ok_bind, pure_eq_ok, packedOne]
  | .boundedString n, _, s, _, conforms, lengths, holds => by
    rcases conforms with ⟨text, rfl, bound⟩
    have taken := s.takeStr_of_holds text lengths holds
    simp only [pullOne, taken, ok_bind, if_neg (Nat.not_lt.mpr bound), pure_eq_ok, packedOne]
  | .wString, _, _, _, conforms, _, _ => by cases conforms
  | .boundedWString _, _, _, _, conforms, _, _ => by cases conforms
  | .nested ⟨name, fields⟩, _, s, shape, conforms, lengths, holds => by
    rcases conforms with ⟨members, rfl, inside⟩
    exact pullStruct_of_fields name (pullFields_packed fields members s shape.2 inside lengths holds)
  | .array n inner, _, s, shape, conforms, lengths, holds => by
    rcases conforms with ⟨items, rfl, rfl, inside⟩
    have filled := pullItems_packed (pullOne inner) (packedOne inner) items
      (fun v member s => pullOne_packed inner v s shape.2 (inside v member) (lengths v member))
      s holds
    change (pullItems (pullOne inner) items.length s >>= fun read =>
      .ok (Value.array read.1, read.2)) = _
    rw [filled]
    rfl
  | .sequence inner, _, s, shape, conforms, lengths, holds => by
    rcases conforms with ⟨items, rfl, inside⟩
    rcases pullSequence_packed (pullOne inner) (packedOne inner) items
      (fun v member s => pullOne_packed inner v s shape (inside v member) (lengths.2 v member))
      (fun v member => packedOne_pos inner v shape (inside v member)) lengths.1 s holds with
      ⟨begun, filled⟩
    simp only [pullOne, begun, ok_bind, filled, packedOne]
    rfl
  | .boundedSequence cap inner, _, s, shape, conforms, lengths, holds => by
    rcases conforms with ⟨items, rfl, bound, inside⟩
    rcases pullSequence_packed (pullOne inner) (packedOne inner) items
      (fun v member s => pullOne_packed inner v s shape (inside v member) (lengths.2 v member))
      (fun v member => packedOne_pos inner v shape (inside v member)) lengths.1 s holds with
      ⟨begun, filled⟩
    simp only [pullOne, begun, ok_bind, if_neg (Nat.not_lt.mpr bound), filled, packedOne]
    rfl

theorem pullFields_packed : ∀ (fields : List Field) (members : List Value) (s : PackedSource),
    PackableFields fields → ConformsFields fields members → LengthsFitFields fields members →
    s.Holds (packedFields fields members) →
    pullFields fields s = .ok (members, s.skip (packedFields fields members).length)
  | [], _, _, _, conforms, _, _ => by
    cases conforms
    rfl
  | ⟨name, ty, offset⟩ :: fields, _, s, shapes, conforms, lengths, holds => by
    rcases conforms with ⟨v, rest, rfl, first, others⟩
    rw [packedFields] at holds
    rcases holds.split with ⟨front, back⟩
    have one := pullOne_packed ty v s shapes.1 first lengths.1 front
    have more := pullFields_packed fields rest _ shapes.2 others lengths.2 back
    change (pullOne ty s >>= fun read => pullFields fields read.2 >>= fun later =>
      .ok (read.1 :: later.1, later.2)) = _
    rw [one, ok_bind, more, ok_bind, packedFields, ← skip_skip]

end

end PackedSource

/-- A writer at its origin, before the first byte of the body. -/
structure CdrWriter.Fresh (w : CdrWriter) (version : EncodingVersion) : Prop where
  ready : w.Ready
  start : w.pos = w.origin
  kind : w.version = version

namespace Packed

/-- A CDR message goes into `packed` through `out` and comes back into `w` with the same body;
both directions report the same number of packed bytes. -/
def Reproduces (bytes : List UInt8) (typeName : String) (schema : List Field)
    (out : List UInt8) (w : CdrWriter) : Prop :=
  ∃ r used packed w', CdrReader.newWithHeader bytes = .ok r ∧
    serialize r typeName schema out = .ok (used, packed) ∧
    deserialize (packed.take used) typeName schema w = .ok (used, w') ∧
    slice w'.buf w.pos (w'.pos - w.pos) = bytes.drop 4

section Message

variable (version : EncodingVersion) (typeName : String) (schema : List Field)
  (members : List Value)

theorem serialize_eq_ok (r : CdrReader) (out : List UInt8)
    (conforms : Conforms (.nested ⟨typeName, schema⟩) (.struct members))
    (lengths : LengthsFit (.nested ⟨typeName, schema⟩) (.struct members))
    (carried : r.Carries (cdrWire r.version (.nested ⟨typeName, schema⟩) (.struct members)))
    (room : (packedFields schema members).length ≤ out.length) :
    serialize r typeName schema out =
      .ok ((packedFields schema members).length, overwrite out 0 (packedFields schema members)) := by
  have walked := encodeOne_of_carries _ _ _ r (PackedSink.new out) (dropsTrailing_refl _)
    (fun _ => rfl) conforms lengths carried
  have pushed := PackedSink.pushOne_packed _ _ (PackedSink.new out) conforms lengths
    (by rw [PackedSink.Fits, PackedSink.new, Nat.zero_add]; exact room)
  rw [project_self _ _ conforms, pushed] at walked
  rw [serialize, encodeFromCdr, walked]
  simp only [passes, ok_map, ok_bind, PackedSink.after, PackedSink.new, PackedSink.position,
    packedOne, Nat.zero_add, pure_eq_ok]

theorem block_of_serialize (out : List UInt8)
    (conforms : Conforms (.nested ⟨typeName, schema⟩) (.struct members))
    (lengths : LengthsFit (.nested ⟨typeName, schema⟩) (.struct members))
    (result : Nat × List UInt8) (serialized : serialize ⟨messageHeader .xcdr2 ++
      cdrWire .xcdr2 (.nested ⟨typeName, schema⟩) (.struct members) 0, 4, 4, .xcdr2⟩
      typeName schema out = .ok result) :
    memberBlockSize schema (.struct members) < 2 ^ 32 := by
  let wire := cdrWire .xcdr2 (.nested ⟨typeName, schema⟩) (.struct members)
  let r : CdrReader := ⟨messageHeader .xcdr2 ++ wire 0, 4, 4, .xcdr2⟩
  rcases bind_eq_ok.mp serialized with ⟨last, walked, _⟩
  have behind := skip_of_encodeOne _ _ r _ last conforms lengths (ready_message .xcdr2 _)
    (holds_messageBody .xcdr2 wire) walked
  have total := length_message_xcdr2 .xcdr2 typeName schema members rfl
  have stop := encodeMessage_stop typeName (cdrWireFields .xcdr2 schema members) schema _ last walked
  rw [behind] at stop
  change 4 + (wire 0).length = 8 + memberBlockSize schema (.struct members) % 2 ^ 32 at stop
  have small := Nat.mod_lt (memberBlockSize schema (.struct members)) (Nat.two_pow_pos 32)
  simp only [wire] at stop
  omega

theorem deserialize_eq_ok (w : CdrWriter) (ready : w.Ready) (shapes : PackableFields schema)
    (inside : ConformsFields schema members) (lengths : LengthsFitFields schema members)
    (space : w.pos + (cdrWire w.version (.nested ⟨typeName, schema⟩) (.struct members)
      w.offset).length ≤ w.buf.length) :
    deserialize (packedFields schema members) typeName schema w =
      .ok ((packedFields schema members).length,
        w.after (cdrWire w.version (.nested ⟨typeName, schema⟩) (.struct members) w.offset)) := by
  have holds : (PackedSource.new (packedFields schema members)).Holds
      (packedFields schema members) := ⟨Nat.zero_le _, List.prefix_refl _⟩
  have pulled := PackedSource.pullStruct_of_fields typeName
    (PackedSource.pullFields_packed schema members _ shapes inside lengths holds)
  have walked := decodeOne_of_pull _ _ _ _ w pulled lengths ready
  have stored : w.emit (cdrWire w.version (.nested ⟨typeName, schema⟩) (.struct members)) =
      .ok (w.after _) := w.put_eq_ok ready _ space
  rw [deserialize, decodeToCdr, walked, emits, stored]
  simp only [cdrWrite_ok, ok_map, ok_bind, PackedSource.skip, PackedSource.position,
    PackedSource.new, Nat.zero_add, pure_eq_ok]

end Message

/-- Through `packed` and back, a message keeps its body exactly when its size fields hold. -/
theorem lossless_iff (version : EncodingVersion) (typeName : String) (schema : List Field)
    (v : Value) (buf bytes out : List UInt8) (w : CdrWriter) (shapes : PackableFields schema)
    (conforms : Conforms (.nested ⟨typeName, schema⟩) v)
    (written : writeMessage version typeName schema v buf = .ok bytes)
    (room : (packedOne (.nested ⟨typeName, schema⟩) v).length ≤ out.length)
    (fresh : w.Fresh version) (space : w.pos + (bytes.length - 4) ≤ w.buf.length) :
    Reproduces bytes typeName schema out w ↔
      (version = .xcdr2 → memberBlockSize schema v < 2 ^ 32) := by
  rcases (writeMessage_eq_ok_iff version typeName schema v buf bytes conforms).mp written with
    ⟨lengths, _, rfl⟩
  rcases id conforms with ⟨members, rfl, inside⟩
  let wire := cdrWire version (.nested ⟨typeName, schema⟩) (.struct members)
  let r : CdrReader := ⟨messageHeader version ++ wire 0, 4, 4, version⟩
  have opened := newWithHeader_messageHeader version (wire 0)
  have ready : r.Ready := ready_message version _
  have holds : r.Holds wire := holds_messageBody version wire
  have header := length_messageHeader version
  constructor
  · rintro ⟨r', used, packed, w', again, serialized, _, _⟩ kind
    rw [opened] at again
    cases again
    subst kind
    exact block_of_serialize typeName schema members out conforms lengths _ serialized
  · intro fits
    have carried : r.Carries wire := ⟨ready, holds, fun kind => by
      have bound := fits kind
      have total := length_message_xcdr2 version typeName schema members kind
      change (cdrWire version (.nested ⟨typeName, schema⟩) (.struct members) 0).length < 2 ^ 32 + 4
      omega⟩
    have start : w.offset = 0 := by rw [CdrWriter.offset, fresh.start, Nat.sub_self]
    have size : (messageHeader version ++ wire 0).length - 4 = (wire 0).length := by
      rw [List.length_append, header, Nat.add_sub_cancel_left]
    have serialized := serialize_eq_ok typeName schema members r out conforms lengths carried room
    have restored := deserialize_eq_ok typeName schema members w fresh.ready shapes inside lengths
      (by rw [fresh.kind, start, ← size]; exact space)
    rw [fresh.kind, start] at restored
    have front := take_overwrite out 0 (packedFields schema members) (Nat.zero_le _)
    rw [Nat.zero_add, List.take_zero, List.nil_append] at front
    refine ⟨r, _, _, w.after (wire 0), opened, serialized, by rw [front]; exact restored, ?_⟩
    rw [CdrWriter.after_pos, Nat.add_sub_cancel_left, CdrWriter.after,
      slice_overwrite_same _ _ _ fresh.ready.within, ← header, List.drop_left]

theorem lossless_tagged :
    ∃ bytes, writeMessage .xcdr2 "Tagged" taggedSchema tagged (List.replicate 64 0) = .ok bytes ∧
      Reproduces bytes "Tagged" taggedSchema (List.replicate 32 0)
        ⟨List.replicate 64 0, 0, 0, .xcdr2, false⟩ := by
  have written := writeMessage_eq_ok .xcdr2 "Tagged" taggedSchema tagged (List.replicate 64 0)
    conforms_tagged lengthsFit_tagged (by decide)
  refine ⟨_, written, (lossless_iff .xcdr2 "Tagged" taggedSchema tagged (List.replicate 64 0) _
    (List.replicate 32 0) _ ?_ conforms_tagged written (by decide)
    ⟨⟨Nat.le_refl 0, by decide, rfl⟩, rfl, rfl⟩ (by decide)).mpr (fun _ => by decide)⟩
  simp [taggedSchema, PackableFields, Packable]

theorem lossless_lost :
    PackableFields (blobSchema (2 ^ 32)) ∧
    Conforms (.nested ⟨"Blob", blobSchema (2 ^ 32)⟩) (blob (2 ^ 32)) ∧
    CdrWriter.Fresh ⟨List.replicate (2 ^ 32 + 4) 0, 0, 0, .xcdr2, false⟩ .xcdr2 ∧ ∃ bytes,
      writeMessage .xcdr2 "Blob" (blobSchema (2 ^ 32)) (blob (2 ^ 32))
        (List.replicate (2 ^ 32 + 8) 0) = .ok bytes ∧
      bytes.length - 4 ≤ 2 ^ 32 + 4 ∧ ∀ out, ¬ Reproduces bytes "Blob" (blobSchema (2 ^ 32)) out
        ⟨List.replicate (2 ^ 32 + 4) 0, 0, 0, .xcdr2, false⟩ := by
  have written := writeMessage_eq_ok .xcdr2 "Blob" (blobSchema (2 ^ 32)) (blob (2 ^ 32))
    (List.replicate (2 ^ 32 + 8) 0) (conforms_blob _) (lengthsFit_blob _)
    (by rw [messageSize_blob, List.length_replicate])
  have size := messageSize_blob (2 ^ 32)
  refine ⟨by simp [blobSchema, PackableFields, Packable], conforms_blob _,
    ⟨⟨Nat.le_refl 0, Nat.zero_le _, rfl⟩, rfl, rfl⟩, _, written, ?_, ?_⟩
  · rw [List.length_append, length_messageHeader, ← messageSize, size]
    omega
  · rintro out ⟨r, used, packed, w', opened, serialized, _⟩
    rw [newWithHeader_messageHeader] at opened
    cases opened
    have small := block_of_serialize "Blob" (blobSchema (2 ^ 32)) _ out (conforms_blob _)
      (lengthsFit_blob _) _ serialized
    have block := memberBlockSize_blob (2 ^ 32)
    rw [blob] at block
    rw [block] at small
    exact Nat.lt_irrefl _ small

end Packed

end NanoRos
