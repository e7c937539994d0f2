import NanoRos.Serdes.RoundTrip

/-! The `Serialize` and `Deserialize` that codegen emits for a message type. -/

namespace NanoRos

open LittleEndian Memory

mutual

def serialize : FieldType → Value → CdrWriter → Except SerError CdrWriter
  | .bool, .bool b, w => w.writeBool b
  | .uint8, .u8 n, w => w.writeU8 n
  | .int8, .i8 n, w => w.writeI8 n
  | .uint16, .u16 n, w => w.writeU16 n
  | .int16, .i16 n, w => w.writeI16 n
  | .uint32, .u32 n, w => w.writeU32 n
  | .int32, .i32 n, w => w.writeI32 n
  | .uint64, .u64 n, w => w.writeU64 n
  | .int64, .i64 n, w => w.writeI64 n
  | .float32, .f32 x, w => w.writeF32 x
  | .float64, .f64 x, w => w.writeF64 x
  | .string, .str s, w => w.writeString s
  | .wString, .str s, w => w.writeString s
  | .boundedString _, .str s, w => w.writeString s
  | .boundedWString _, .str s, w => w.writeString s
  | .nested ⟨_, fields⟩, .struct members, w => do
    let (mark, w) ← w.beginDheader
    let w ← if fields.isEmpty then w.writeU8 0 else serializeFields fields members w
    w.endDheader mark
  | .array _ inner, .array items, w => items.foldlM (fun w item => serialize inner item w) w
  | .sequence inner, .seq items, w => do
    let w ← w.writeU32 (UInt32.ofNat items.length)
    items.foldlM (fun w item => serialize inner item w) w
  | .boundedSequence _ inner, .seq items, w => do
    let w ← w.writeU32 (UInt32.ofNat items.length)
    items.foldlM (fun w item => serialize inner item w) w
  | _, _, w => .ok w

def serializeFields : List Field → List Value → CdrWriter → Except SerError CdrWriter
  | ⟨_, ty, _⟩ :: fields, v :: members, w => do
    let w ← serialize ty v w
    serializeFields fields members w
  | _, _, w => .ok w

end

/-- A value read by one of the reader's primitives. -/
def readAs {α : Type} (into : α → Value) (read : CdrReader → Except DeserError (α × CdrReader))
    (r : CdrReader) : Except DeserError (Value × CdrReader) := do
  let (value, r) ← read r
  return (into value, r)

/-- `for _ in 0..n`, with a `push` that fails when the vector is full. -/
def deserializeItems (cap : Option Nat) (item : CdrReader → Except DeserError (Value × CdrReader)) :
    Nat → List Value → CdrReader → Except DeserError (List Value × CdrReader)
  | 0, vec, r => .ok (vec, r)
  | n + 1, vec, r => do
    let (v, r) ← item r
    if cap.any (· ≤ vec.length) then throw .capacityExceeded
    deserializeItems cap item n (vec ++ [v]) r

mutual

def deserialize : FieldType → CdrReader → Except DeserError (Value × CdrReader)
  | .bool, r => readAs .bool CdrReader.readBool r
  | .uint8, r => readAs .u8 CdrReader.readU8 r
  | .int8, r => readAs .i8 CdrReader.readI8 r
  | .uint16, r => readAs .u16 CdrReader.readU16 r
  | .int16, r => readAs .i16 CdrReader.readI16 r
  | .uint32, r => readAs .u32 CdrReader.readU32 r
  | .int32, r => readAs .i32 CdrReader.readI32 r
  | .uint64, r => readAs .u64 CdrReader.readU64 r
  | .int64, r => readAs .i64 CdrReader.readI64 r
  | .float32, r => readAs .f32 CdrReader.readF32 r
  | .float64, r => readAs .f64 CdrReader.readF64 r
  | .string, r => readAs .str CdrReader.readString r
  | .wString, r => readAs .str CdrReader.readString r
  | .boundedString n, r => do
    let (s, r) ← r.readString
    if (asBytes s).length > n then throw .capacityExceeded
    return (.str s, r)
  | .boundedWString n, r => do
    let (s, r) ← r.readString
    if (asBytes s).length > n then throw .capacityExceeded
    return (.str s, r)
  | .nested ⟨_, fields⟩, r => do
    let (scope, r) ← r.beginDheader
    let (members, r) ← if fields.isEmpty then (fun padding => ([], padding.2)) <$> r.readU8
      else deserializeFields fields r
    let r ← r.endDheader scope
    return (.struct members, r)
  | .array n inner, r => do
    let (items, r) ← deserializeItems none (deserialize inner) n [] r
    return (.array items, r)
  | .sequence inner, r => do
    let (len, r) ← r.readU32
    let (items, r) ← deserializeItems none (deserialize inner) len.toNat [] r
    return (.seq items, r)
  | .boundedSequence cap inner, r => do
    let (len, r) ← r.readU32
    let (items, r) ← deserializeItems (some cap) (deserialize inner) len.toNat [] r
    return (.seq items, r)

def deserializeFields : List Field → CdrReader → Except DeserError (List Value × CdrReader)
  | [], r => .ok ([], r)
  | ⟨_, ty, _⟩ :: fields, r => do
    let (v, r) ← deserialize ty r
    let (members, r) ← deserializeFields fields r
    return (v :: members, r)

end

mutual

def typedWire : FieldType → Value → Wire UInt8
  | .bool, .bool b => Wire.lit [if b then 1 else 0]
  | .uint8, .u8 n => Wire.lit [n]
  | .int8, .i8 n => Wire.lit [n.toUInt8]
  | .uint16, .u16 n => cdrWord .xcdr1 2 n.toNat
  | .int16, .i16 n => cdrWord .xcdr1 2 n.toUInt16.toNat
  | .uint32, .u32 n => cdrWord .xcdr1 4 n.toNat
  | .int32, .i32 n => cdrWord .xcdr1 4 n.toUInt32.toNat
  | .uint64, .u64 n => cdrWord .xcdr1 8 n.toNat
  | .int64, .i64 n => cdrWord .xcdr1 8 n.toUInt64.toNat
  | .float32, .f32 x => cdrWord .xcdr1 4 x.bits.toNat
  | .float64, .f64 x => cdrWord .xcdr1 8 x.bits.toNat
  | .string, .str s => cdrString .xcdr1 s
  | .boundedString _, .str s => cdrString .xcdr1 s
  | .nested ⟨_, fields⟩, .struct members =>
    if fields.isEmpty then Wire.lit [0] else typedWireFields fields members
  | .array _ inner, .array items => Wire.many (typedWire inner) items
  | .sequence inner, .seq items =>
    (cdrWord .xcdr1 4 items.length).andThen (Wire.many (typedWire inner) items)
  | .boundedSequence _ inner, .seq items =>
    (cdrWord .xcdr1 4 items.length).andThen (Wire.many (typedWire inner) items)
  | _, _ => Wire.empty

def typedWireFields : List Field → List Value → Wire UInt8
  | ⟨_, ty, _⟩ :: fields, v :: members => (typedWire ty v).andThen (typedWireFields fields members)
  | _, _ => Wire.empty

end

section Write

variable (write : CdrWriter → Value → Except SerError CdrWriter)

theorem foldlM_eq_emit (wire : Value → Wire UInt8) (items : List Value) (w : CdrWriter)
    (ready : w.Ready) (plain : w.version = .xcdr1)
    (spec : ∀ item ∈ items, ∀ w : CdrWriter, w.Ready → w.version = .xcdr1 →
      write w item = w.emit (wire item)) :
    items.foldlM write w = w.emit (Wire.many wire items) := by
  induction items generalizing w with
  | nil => exact (w.emit_empty ready).symm
  | cons item items ih =>
    rw [List.foldlM_cons, spec item List.mem_cons_self w ready plain, Wire.many,
      ← w.emit_emit ready]
    cases done : w.emit (wire item) with
    | error e => rfl
    | ok next =>
      rcases CdrWriter.emit_eq_ok ready done with ⟨rfl, _, ready'⟩
      exact ih _ ready' plain fun later member => spec later (List.mem_cons_of_mem item member)

theorem sequence_eq_emit (wire : Value → Wire UInt8) (items : List Value) (w : CdrWriter)
    (ready : w.Ready) (plain : w.version = .xcdr1) (fits : items.length ≤ u32Max)
    (spec : ∀ item ∈ items, ∀ w : CdrWriter, w.Ready → w.version = .xcdr1 →
      write w item = w.emit (wire item)) :
    (w.writeU32 (UInt32.ofNat items.length) >>= fun w => items.foldlM write w) =
      w.emit ((cdrWord .xcdr1 4 items.length).andThen (Wire.many wire items)) := by
  rw [CdrWriter.writeU32, toNat_ofNat_u32 _ fits, w.writeWord_eq_emit ready, plain,
    ← w.emit_emit ready]
  cases done : w.emit (cdrWord .xcdr1 4 items.length) with
  | error e => rfl
  | ok next =>
    rcases CdrWriter.emit_eq_ok ready done with ⟨rfl, _, ready'⟩
    exact foldlM_eq_emit write wire items _ ready' plain spec

theorem word_eq_emit (width value : Nat) (w : CdrWriter) (ready : w.Ready)
    (plain : w.version = .xcdr1) :
    CdrWriter.writeWord width w value = w.emit (cdrWord .xcdr1 width value) := by
  rw [w.writeWord_eq_emit ready, plain]

theorem string_eq_emit (s : String) (w : CdrWriter) (ready : w.Ready) (plain : w.version = .xcdr1)
    (fits : (asBytes s).length + 1 ≤ u32Max) : w.writeString s = w.emit (cdrString .xcdr1 s) := by
  rw [w.writeString_eq_emit ready s fits, plain]

mutual

theorem serialize_eq_emit : ∀ (ty : FieldType) (v : Value) (w : CdrWriter), Conforms ty v →
    LengthsFit ty v → w.Ready → w.version = .xcdr1 → serialize ty v w = w.emit (typedWire ty v)
  | .bool | .uint8 | .int8 => fun _ _ conforms _ _ _ => by
    rcases conforms with ⟨value, rfl⟩
    rfl
  | .uint16 | .int16 | .uint32 | .int32 | .uint64 | .int64 | .float32 | .float64 =>
    fun _ w conforms _ ready plain => by
    rcases conforms with ⟨value, rfl⟩
    exact word_eq_emit _ _ w ready plain
  | .string => fun _ w conforms fits ready plain => by
    rcases conforms with ⟨text, rfl⟩
    exact string_eq_emit text w ready plain fits
  | .boundedString _ => fun _ w conforms fits ready plain => by
    rcases conforms with ⟨text, rfl, _⟩
    exact string_eq_emit text w ready plain fits
  | .wString | .boundedWString _ => fun _ _ conforms _ _ _ => by
    cases conforms
  | .nested ⟨name, fields⟩ => fun _ w conforms fits ready plain => by
    rcases conforms with ⟨members, rfl, inside⟩
    have opened : w.beginDheader = .ok (none, w) := by rw [CdrWriter.beginDheader, plain]
    have closed (next : Except SerError CdrWriter) :
        (next >>= fun w => w.endDheader none) = next := by
      cases next <;> rfl
    rw [typedWire]
    cases fields with
    | nil =>
      simp only [serialize, opened, ok_bind, List.isEmpty_nil, if_true, closed]
      rfl
    | cons field fields =>
      have body := serializeFields_eq_emit (field :: fields) members w inside fits ready plain
      simp only [serialize, opened, ok_bind, List.isEmpty_cons, Bool.false_eq_true, if_false,
        closed, body]
  | .array _ inner => fun _ w conforms fits ready plain => by
    rcases conforms with ⟨items, rfl, _, inside⟩
    exact foldlM_eq_emit _ _ items w ready plain fun item member w ready plain =>
      serialize_eq_emit inner item w (inside item member) (fits item member) ready plain
  | .sequence inner => fun _ w conforms fits ready plain => by
    rcases conforms with ⟨items, rfl, inside⟩
    exact sequence_eq_emit _ _ items w ready plain fits.1 fun item member w ready plain =>
      serialize_eq_emit inner item w (inside item member) (fits.2 item member) ready plain
  | .boundedSequence _ inner => fun _ w conforms fits ready plain => by
    rcases conforms with ⟨items, rfl, _, inside⟩
    exact sequence_eq_emit _ _ items w ready plain fits.1 fun item member w ready plain =>
      serialize_eq_emit inner item w (inside item member) (fits.2 item member) ready plain

theorem serializeFields_eq_emit : ∀ (fields : List Field) (members : List Value) (w : CdrWriter),
    ConformsFields fields members → LengthsFitFields fields members → w.Ready → w.version = .xcdr1 →
    serializeFields fields members w = w.emit (typedWireFields fields members)
  | [], _, w, conforms, _, ready, _ => by
    cases conforms
    exact (w.emit_empty ready).symm
  | ⟨_, ty, _⟩ :: fields, _, w, conforms, fits, ready, plain => by
    rcases conforms with ⟨v, rest, rfl, first, others⟩
    rw [serializeFields, serialize_eq_emit ty v w first fits.1 ready plain, typedWireFields,
      ← w.emit_emit ready]
    cases done : w.emit (typedWire ty v) with
    | error e => rfl
    | ok next =>
      rcases CdrWriter.emit_eq_ok ready done with ⟨rfl, _, ready'⟩
      exact serializeFields_eq_emit fields rest _ others fits.2 ready' plain

end

end Write

section Read

theorem readAs_of_read {α : Type} {into : α → Value}
    {read : CdrReader → Except DeserError (α × CdrReader)} {r last : CdrReader} {value : α}
    (done : read r = .ok (value, last)) : readAs into read r = .ok (into value, last) := by
  rw [readAs, done]
  rfl

theorem readAs_of_holds {α : Type} {ty : FieldType} {into : α → Value}
    {read : CdrReader → Except DeserError (α × CdrReader)}
    {write : CdrWriter → α → Except SerError CdrWriter} (codec : ScalarCodec ty into read write)
    {v : Value} {r : CdrReader} (conforms : Conforms ty v) (ready : r.Ready)
    (plain : r.version = .xcdr1) (holds : r.Holds (typedWire ty v)) :
    readAs into read r = .ok (v, r.skip (typedWire ty v)) := by
  have same : typedWire ty v = cdrWire r.version ty v := by
    rw [plain]
    cases codec <;> cases v <;> rfl
  rw [same] at holds ⊢
  rcases codec.read_of_holds conforms ready holds with ⟨value, rfl, found⟩
  exact readAs_of_read found

theorem deserializeItems_of_holds (cap : Option Nat)
    (item : CdrReader → Except DeserError (Value × CdrReader)) (wire : Value → Wire UInt8)
    (items vec : List Value) (r : CdrReader) (ready : r.Ready) (plain : r.version = .xcdr1)
    (room : ∀ c, cap = some c → vec.length + items.length ≤ c)
    (holds : r.Holds (Wire.many wire items))
    (spec : ∀ v ∈ items, ∀ r : CdrReader, r.Ready → r.version = .xcdr1 → r.Holds (wire v) →
      item r = .ok (v, r.skip (wire v))) :
    deserializeItems cap item items.length vec r =
      .ok (vec ++ items, r.skip (Wire.many wire items)) := by
  induction items generalizing vec r with
  | nil =>
    rw [List.append_nil]
    rfl
  | cons v items ih =>
    rcases (r.holds_andThen ready _ _).mp holds with ⟨first, others⟩
    have free : cap.any (· ≤ vec.length) = false := by
      cases cap with
      | none => rfl
      | some c =>
        have space := room c rfl
        rw [List.length_cons] at space
        rw [Option.any_some, decide_eq_false_iff_not]
        omega
    have rest := ih (vec ++ [v]) (r.skip (wire v)) (ready.skip first) plain
      (by
        intro c bounded
        have space := room c bounded
        rw [List.length_append, List.length_singleton]
        rw [List.length_cons] at space
        omega)
      others (fun later member => spec later (List.mem_cons_of_mem v member))
    rw [List.length_cons, deserializeItems, spec v List.mem_cons_self r ready plain first]
    simp only [ok_bind, free]
    rw [List.append_assoc, r.skip_andThen ready] at rest
    exact rest

theorem sequence_of_holds (cap : Option Nat)
    (item : CdrReader → Except DeserError (Value × CdrReader)) (wire : Value → Wire UInt8)
    (items : List Value) (r : CdrReader) (ready : r.Ready) (plain : r.version = .xcdr1)
    (fits : items.length ≤ u32Max) (room : ∀ c, cap = some c → items.length ≤ c)
    (holds : r.Holds ((cdrWord .xcdr1 4 items.length).andThen (Wire.many wire items)))
    (spec : ∀ v ∈ items, ∀ r : CdrReader, r.Ready → r.version = .xcdr1 → r.Holds (wire v) →
      item r = .ok (v, r.skip (wire v))) :
    (r.readU32 >>= fun read => deserializeItems cap item read.1.toNat [] read.2 >>= fun read =>
      pure (Value.seq read.1, read.2)) =
      .ok (.seq items, r.skip ((cdrWord .xcdr1 4 items.length).andThen (Wire.many wire items))) := by
  rcases (r.holds_andThen ready _ _).mp holds with ⟨counted, elements⟩
  have word := counted
  rw [← plain] at word
  have length := r.readLength_of_holds ready items.length fits word
  rw [plain] at length
  have loop := deserializeItems_of_holds cap item wire items [] _ (ready.skip counted) plain
    (by
      intro c bounded
      rw [List.length_nil, Nat.zero_add]
      exact room c bounded)
    elements spec
  rw [length]
  simp only [ok_bind, toNat_ofNat_u32 _ fits, loop, List.nil_append, r.skip_andThen ready]
  rfl

mutual

theorem deserialize_of_holds : ∀ (ty : FieldType) (v : Value) (r : CdrReader), Conforms ty v →
    LengthsFit ty v → r.Ready → r.version = .xcdr1 → r.Holds (typedWire ty v) →
    deserialize ty r = .ok (v, r.skip (typedWire ty v))
  | .bool | .uint8 | .int8 | .uint16 | .int16 | .uint32 | .int32 | .uint64 | .int64 | .float32
  | .float64 => fun _ r conforms _ ready plain holds => by
    exact readAs_of_holds (by constructor) conforms ready plain holds
  | .string => fun _ r conforms fits ready plain holds => by
    rcases conforms with ⟨text, rfl⟩
    rw [typedWire, ← plain] at holds ⊢
    exact readAs_of_read (r.readString_of_holds ready text fits holds)
  | .boundedString n => fun _ r conforms fits ready plain holds => by
    rcases conforms with ⟨text, rfl, bound⟩
    rw [typedWire, ← plain] at holds ⊢
    simp only [deserialize, r.readString_of_holds ready text fits holds, ok_bind,
      if_neg (Nat.not_lt.mpr bound)]
    rfl
  | .wString | .boundedWString _ => fun _ _ conforms _ _ _ _ => by
    cases conforms
  | .nested ⟨name, fields⟩ => fun _ r conforms fits ready plain holds => by
    rcases conforms with ⟨members, rfl, inside⟩
    have opened : r.beginDheader = .ok (none, r) := by rw [CdrReader.beginDheader, plain]
    rw [typedWire] at holds ⊢
    cases fields with
    | nil =>
      cases inside
      rw [List.isEmpty_nil, if_pos rfl] at holds ⊢
      simp only [deserialize, opened, ok_bind, List.isEmpty_nil, if_true,
        r.readU8_of_holds ready 0 holds]
      rfl
    | cons field fields =>
      rw [List.isEmpty_cons, if_neg Bool.false_ne_true] at holds ⊢
      have read := deserializeFields_of_holds (field :: fields) members r inside fits ready
        plain holds
      simp only [deserialize, opened, ok_bind, List.isEmpty_cons, Bool.false_eq_true,
        if_false, read]
      rfl
  | .array _ inner => fun _ r conforms fits ready plain holds => by
    rcases conforms with ⟨items, rfl, rfl, inside⟩
    have loop := deserializeItems_of_holds none (deserialize inner) (typedWire inner) items []
      r ready plain (fun _ bounded => by cases bounded) holds
      fun item member r ready plain holds =>
        deserialize_of_holds inner item r (inside item member) (fits item member) ready plain
          holds
    simp only [deserialize, loop, ok_bind, List.nil_append]
    rfl
  | .sequence inner => fun _ r conforms fits ready plain holds => by
    rcases conforms with ⟨items, rfl, inside⟩
    exact sequence_of_holds none (deserialize inner) (typedWire inner) items r ready plain
      fits.1 (fun _ bounded => by cases bounded) holds fun item member r ready plain holds =>
        deserialize_of_holds inner item r (inside item member) (fits.2 item member) ready plain
          holds
  | .boundedSequence cap inner => fun _ r conforms fits ready plain holds => by
    rcases conforms with ⟨items, rfl, bound, inside⟩
    exact sequence_of_holds (some cap) (deserialize inner) (typedWire inner) items r ready plain
      fits.1 (fun _ bounded => by cases bounded; exact bound) holds
      fun item member r ready plain holds =>
        deserialize_of_holds inner item r (inside item member) (fits.2 item member) ready plain
          holds

theorem deserializeFields_of_holds : ∀ (fields : List Field) (members : List Value)
    (r : CdrReader), ConformsFields fields members → LengthsFitFields fields members → r.Ready →
    r.version = .xcdr1 → r.Holds (typedWireFields fields members) →
    deserializeFields fields r = .ok (members, r.skip (typedWireFields fields members))
  | [], _, r, conforms, _, _, _, _ => by
    cases conforms
    rfl
  | ⟨_, ty, _⟩ :: fields, _, r, conforms, fits, ready, plain, holds => by
    rcases conforms with ⟨v, rest, rfl, first, others⟩
    rcases (r.holds_andThen ready _ _).mp holds with ⟨here, behind⟩
    have one := deserialize_of_holds ty v r first fits.1 ready plain here
    have more := deserializeFields_of_holds fields rest _ others fits.2 (ready.skip here) plain
      behind
    simp only [deserializeFields, one, ok_bind, more, typedWireFields, ← r.skip_andThen ready]
    rfl

end

end Read

mutual

def HasMembers : FieldType → Prop
  | .nested ⟨_, fields⟩ => fields ≠ [] ∧ HaveMembers fields
  | .array _ inner | .sequence inner | .boundedSequence _ inner => HasMembers inner
  | _ => True

def HaveMembers : List Field → Prop
  | [] => True
  | ⟨_, ty, _⟩ :: fields => HasMembers ty ∧ HaveMembers fields

end

mutual

theorem typedWire_eq_cdrWire : ∀ ty : FieldType, HasMembers ty → typedWire ty = cdrWire .xcdr1 ty
  | .bool, _ | .uint8, _ | .int8, _ | .uint16, _ | .int16, _ | .uint32, _ | .int32, _ | .uint64, _
  | .int64, _ | .float32, _ | .float64, _ | .string, _ | .wString, _ | .boundedString _, _
  | .boundedWString _, _ => by
    funext v
    cases v <;> rfl
  | .nested ⟨_, fields⟩, full => by
    funext v
    have inside := typedWireFields_eq_cdrWireFields fields full.2
    cases v <;> simp [typedWire, cdrWire, delimited, full.1, inside]
  | .array _ inner, full | .sequence inner, full | .boundedSequence _ inner, full => by
    funext v
    have items := typedWire_eq_cdrWire inner full
    cases v <;> simp [typedWire, cdrWire, items]

theorem typedWireFields_eq_cdrWireFields : ∀ fields : List Field, HaveMembers fields →
    typedWireFields fields = cdrWireFields .xcdr1 fields
  | [], _ => rfl
  | ⟨_, ty, _⟩ :: fields, full => by
    funext members
    have head := typedWire_eq_cdrWire ty full.1
    have rest := typedWireFields_eq_cdrWireFields fields full.2
    cases members <;> simp [typedWireFields, cdrWireFields, head, rest]

end

/-- A flag, and a number behind its padding. -/
def flagCount : List Field := [⟨"flag", .bool, 0⟩, ⟨"count", .uint32, 4⟩]

end NanoRos
