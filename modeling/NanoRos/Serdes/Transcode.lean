import NanoRos.Serdes.Layout
import NanoRos.Serdes.Walk

/-! What a walk does, separated from how it interleaves. -/

namespace NanoRos

open LittleEndian Memory

section Push

variable {σ : Type} [SchemaSink σ]

mutual

def pushOne : FieldType → Value → σ → Except SchemaError σ
  | .bool, .bool b, k => SchemaSink.putBool b k
  | .uint8, .u8 n, k => SchemaSink.putU8 n k
  | .int8, .i8 n, k => SchemaSink.putI8 n k
  | .uint16, .u16 n, k => SchemaSink.putU16 n k
  | .int16, .i16 n, k => SchemaSink.putI16 n k
  | .uint32, .u32 n, k => SchemaSink.putU32 n k
  | .int32, .i32 n, k => SchemaSink.putI32 n k
  | .uint64, .u64 n, k => SchemaSink.putU64 n k
  | .int64, .i64 n, k => SchemaSink.putI64 n k
  | .float32, .f32 x, k => SchemaSink.putF32 x k
  | .float64, .f64 x, k => SchemaSink.putF64 x k
  | .string, .str s, k => SchemaSink.putStr s k
  | .boundedString _, .str s, k => SchemaSink.putStr s k
  | .nested ⟨typeName, fields⟩, .struct members, k => do
    let k ← SchemaSink.structBegin typeName k
    let k ← pushFields fields members k
    SchemaSink.structEnd k
  | .array n inner, .array items, k => do
    let k ← SchemaSink.arrayBegin n k
    let k ← items.foldlM (fun k v => pushOne inner v k) k
    SchemaSink.arrayEnd k
  | .sequence inner, .seq items, k => do
    let k ← SchemaSink.seqBegin items.length k
    let k ← items.foldlM (fun k v => pushOne inner v k) k
    SchemaSink.seqEnd k
  | .boundedSequence _ inner, .seq items, k => do
    let k ← SchemaSink.seqBegin items.length k
    let k ← items.foldlM (fun k v => pushOne inner v k) k
    SchemaSink.seqEnd k
  | _, _, _ => .error .malformed

def pushFields : List Field → List Value → σ → Except SchemaError σ
  | ⟨name, ty, offset⟩ :: fields, v :: members, k => do
    let k ← SchemaSink.fieldBegin ⟨name, ty, offset⟩ k
    let k ← pushOne ty v k
    let k ← SchemaSink.fieldEnd ⟨name, ty, offset⟩ k
    pushFields fields members k
  | _, _, k => .ok k

end

end Push

mutual

/-- `ty'` is `ty` with any number of trailing fields dropped from any of its structs. -/
def DropsTrailing : FieldType → FieldType → Prop
  | .nested ⟨name, fields⟩, ty' =>
    ∃ fields', ty' = .nested ⟨name, fields'⟩ ∧ DropsTrailingFields fields fields'
  | .array n inner, ty' => ∃ inner', ty' = .array n inner' ∧ DropsTrailing inner inner'
  | .sequence inner, ty' => ∃ inner', ty' = .sequence inner' ∧ DropsTrailing inner inner'
  | .boundedSequence cap inner, ty' =>
    ∃ inner', ty' = .boundedSequence cap inner' ∧ DropsTrailing inner inner'
  | ty, ty' => ty' = ty

def DropsTrailingFields : List Field → List Field → Prop
  | [], fields' => fields' = []
  | ⟨name, ty, offset⟩ :: fields, fields' => fields' = [] ∨
      ∃ ty' rest', fields' = ⟨name, ty', offset⟩ :: rest' ∧ DropsTrailing ty ty' ∧
        DropsTrailingFields fields rest'

end

mutual

/-- The part of a value a shorter schema sees. -/
def project : FieldType → Value → Value
  | .nested ⟨_, fields⟩, .struct members => .struct (projectFields fields members)
  | .array _ inner, .array items => .array (items.map (project inner))
  | .sequence inner, .seq items => .seq (items.map (project inner))
  | .boundedSequence _ inner, .seq items => .seq (items.map (project inner))
  | _, v => v

def projectFields : List Field → List Value → List Value
  | ⟨_, ty, _⟩ :: fields, v :: members => project ty v :: projectFields fields members
  | _, _ => []

end

mutual

theorem dropsTrailing_refl : ∀ ty : FieldType, DropsTrailing ty ty
  | .nested ⟨_, fields⟩ => ⟨fields, rfl, dropsTrailingFields_refl fields⟩
  | .array _ inner | .sequence inner
  | .boundedSequence _ inner => ⟨inner, rfl, dropsTrailing_refl inner⟩
  | .bool | .uint8 | .int8 | .uint16 | .int16 | .uint32 | .int32 | .uint64 | .int64
  | .float32 | .float64 | .string | .wString | .boundedString _ | .boundedWString _ => rfl

theorem dropsTrailingFields_refl : ∀ fields : List Field, DropsTrailingFields fields fields
  | [] => rfl
  | ⟨_, ty, _⟩ :: fields =>
    .inr ⟨ty, fields, rfl, dropsTrailing_refl ty, dropsTrailingFields_refl fields⟩

end

mutual

theorem project_self : ∀ (ty : FieldType) (v : Value), Conforms ty v → project ty v = v
  | .nested ⟨_, fields⟩ => fun v conforms => by
    obtain ⟨members, rfl, inside⟩ := conforms
    rw [project, projectFields_self fields members inside]
  | .array _ inner => fun v conforms => by
    obtain ⟨items, rfl, _, inside⟩ := conforms
    rw [project, List.map_congr_left fun item member => project_self inner item (inside item member),
      List.map_id']
  | .sequence inner => fun v conforms => by
    obtain ⟨items, rfl, inside⟩ := conforms
    rw [project, List.map_congr_left fun item member => project_self inner item (inside item member),
      List.map_id']
  | .boundedSequence _ inner => fun v conforms => by
    obtain ⟨items, rfl, _, inside⟩ := conforms
    rw [project, List.map_congr_left fun item member => project_self inner item (inside item member),
      List.map_id']
  | .bool | .uint8 | .int8 | .uint16 | .int16 | .uint32 | .int32 | .uint64 | .int64 | .float32
  | .float64 | .string | .wString | .boundedString _ | .boundedWString _ =>
    fun _ _ => by simp [project]

theorem projectFields_self : ∀ (fields : List Field) (members : List Value),
    ConformsFields fields members → projectFields fields members = members
  | [], members, conforms => by
    cases conforms
    rfl
  | ⟨_, ty, _⟩ :: fields, members, conforms => by
    obtain ⟨v, rest, rfl, first, others⟩ := conforms
    rw [projectFields, project_self ty v first, projectFields_self fields rest others]

end

namespace CdrReader

/-- The reader stands on a wire whose member blocks all fit the `u32` size field. A block is
never longer than the wire around it, so one bound on the outermost wire covers them all. -/
structure Carries (r : CdrReader) (wire : Wire UInt8) : Prop where
  ready : r.Ready
  holds : r.Holds wire
  short : r.version = .xcdr2 → (wire r.offset).length < 2 ^ 32 + 4

theorem Carries.split {r : CdrReader} {first second : Wire UInt8}
    (carried : r.Carries (first.andThen second)) :
    r.Carries first ∧ (r.skip first).Carries second := by
  obtain ⟨front, back⟩ := (holds_andThen r carried.ready first second).mp carried.holds
  have bound := carried.short
  simp only [Wire.andThen, List.length_append] at bound
  refine ⟨⟨carried.ready, front, fun kind => ?_⟩, ⟨carried.ready.skip front, back, fun kind => ?_⟩⟩
  · have total := bound kind
    omega
  · have total := bound kind
    rw [offset_skip r carried.ready, Wire.stop]
    omega

variable (r : CdrReader)

section

variable (ready : r.Ready)
include ready

theorem readBool_of_holds (b : Bool) (holds : r.Holds (Wire.lit [if b then 1 else 0])) :
    r.readBool = .ok (b, r.skip (Wire.lit [if b then 1 else 0])) := by
  rw [readBool, readU8_of_holds r ready _ holds]
  cases b <;> rfl

theorem readI8_of_holds (n : Int8) (holds : r.Holds (Wire.lit [n.toUInt8])) :
    r.readI8 = .ok (n, r.skip (Wire.lit [n.toUInt8])) := by
  rw [readI8, readU8_of_holds r ready _ holds]
  simp

theorem readI16_of_holds (n : Int16) (holds : r.Holds (cdrWord r.version 2 n.toUInt16.toNat)) :
    r.readI16 = .ok (n, r.skip (cdrWord r.version 2 n.toUInt16.toNat)) := by
  rw [readI16, readU16_of_holds r ready _ holds]
  simp

theorem readI32_of_holds (n : Int32) (holds : r.Holds (cdrWord r.version 4 n.toUInt32.toNat)) :
    r.readI32 = .ok (n, r.skip (cdrWord r.version 4 n.toUInt32.toNat)) := by
  rw [readI32, readU32_of_holds r ready _ holds]
  simp

theorem readI64_of_holds (n : Int64) (holds : r.Holds (cdrWord r.version 8 n.toUInt64.toNat)) :
    r.readI64 = .ok (n, r.skip (cdrWord r.version 8 n.toUInt64.toNat)) := by
  rw [readI64, readU64_of_holds r ready _ holds]
  simp

theorem readF32_of_holds (x : F32) (holds : r.Holds (cdrWord r.version 4 x.bits.toNat)) :
    r.readF32 = .ok (x, r.skip (cdrWord r.version 4 x.bits.toNat)) := by
  rw [readF32, readU32_of_holds r ready _ holds]
  rfl

theorem readF64_of_holds (x : F64) (holds : r.Holds (cdrWord r.version 8 x.bits.toNat)) :
    r.readF64 = .ok (x, r.skip (cdrWord r.version 8 x.bits.toNat)) := by
  rw [readF64, readU64_of_holds r ready _ holds]
  rfl

end

theorem delimited_xcdr2_apply (body : Wire UInt8) (offset : Nat) :
    delimited .xcdr2 body offset =
      (cdrWord .xcdr2 4 (body (offset + padding 4 offset + 4)).length).andThen body offset := by
  simp [delimited, cdrWord, Wire.andThen, Wire.align, Wire.lit, alignCap, Nat.add_assoc]

theorem skip_delimited (ready : r.Ready) (body : Wire UInt8) :
    r.skip (delimited .xcdr2 body) =
      (r.skip (cdrWord .xcdr2 4 (body (r.offset + padding 4 r.offset + 4)).length)).skip body := by
  rw [skip_andThen r ready]
  simp only [skip, delimited_xcdr2_apply]

theorem beginDheader_holds (ready : r.Ready) (body : Wire UInt8)
    (holds : r.Holds (delimited r.version body)) {scope : Option Nat} {opened : CdrReader}
    (begun : r.beginDheader = .ok (scope, opened)) :
    opened.version = r.version ∧ opened.Ready ∧ opened.Holds body := by
  cases kind : r.version with
  | xcdr1 =>
    simp only [beginDheader, kind] at begun
    cases begun
    rw [kind] at holds
    exact ⟨kind, ready, holds⟩
  | xcdr2 =>
    rw [kind, Holds, delimited_xcdr2_apply] at holds
    rcases (r.holds_andThen ready _ _).mp holds with ⟨word, members⟩
    have sized := r.readCast_of_holds ready _ (by rw [kind]; exact word)
    rw [kind] at sized
    simp only [beginDheader, kind, sized, ok_bind] at begun
    split at begun
    case isTrue => cases begun
    case isFalse =>
      cases begun
      exact ⟨kind, ready.skip word, members⟩

/-- Opening a struct the writer closed: the reader stands on the members, and closing it from
anywhere inside them lands behind the struct. Without a size field the reader must be at the
end of the members already. -/
theorem dheader_scope (front back : Wire UInt8)
    (carried : r.Carries (delimited r.version (front.andThen back)))
    (whole : r.version = .xcdr1 → back = Wire.empty) :
    ∃ scope opened, r.beginDheader = .ok (scope, opened) ∧ opened.version = r.version ∧
      opened.Carries (front.andThen back) ∧ (opened.skip front).endDheader scope =
        .ok (r.skip (delimited r.version (front.andThen back))) := by
  cases kind : r.version with
  | xcdr1 =>
    rw [kind] at carried
    refine ⟨none, r, by simp only [beginDheader, kind], kind, carried, ?_⟩
    rw [whole kind, Wire.andThen_empty]
    rfl
  | xcdr2 =>
    rw [kind] at carried
    let body := front.andThen back
    let size := (body (r.offset + padding 4 r.offset + 4)).length
    let opened := r.skip (cdrWord .xcdr2 4 size)
    have same : delimited .xcdr2 body r.offset =
        (cdrWord .xcdr2 4 size).andThen body r.offset := delimited_xcdr2_apply body r.offset
    have parts : r.Carries ((cdrWord .xcdr2 4 size).andThen body) := by
      refine ⟨carried.ready, ?_, ?_⟩
      · rw [Holds, ← same]
        exact carried.holds
      · rw [← same]
        exact carried.short
    obtain ⟨word, members⟩ := parts.split
    have start : opened.offset = r.offset + padding 4 r.offset + 4 := by
      rw [offset_skip r carried.ready]
      simp [cdrWord, alignCap]
    have total := carried.short kind
    have fits : size ≤ u32Max := by
      change (delimited .xcdr2 body r.offset).length < _ at total
      rw [same] at total
      simp only [Wire.andThen, cdrWord, Wire.align, Wire.lit, alignCap, List.length_append,
        List.length_replicate, length_leBytes, ← Nat.add_assoc] at total
      simp only [size, u32Max, Nat.min_self] at total ⊢
      omega
    have sized := readLength_of_holds r carried.ready size fits (by rw [kind]; exact word.holds)
    rw [kind] at sized
    have room : opened.pos + size ≤ opened.buf.length := by
      have bound := members.holds.length_le members.ready
      rw [start] at bound
      exact bound
    have inside : (opened.skip front).pos ≤ opened.pos + size := by
      simp only [skip, start, size, body, Wire.andThen, List.length_append]
      omega
    have landing : r.skip (delimited .xcdr2 body) = { opened with pos := opened.pos + size } := by
      rw [skip_delimited r carried.ready]
      simp only [opened, skip] at start ⊢
      rw [start]
    refine ⟨some (opened.pos + size), opened, ?_, kind, members, ?_⟩
    · simp only [beginDheader, kind]
      rw [sized]
      simp only [ok_bind, pure_eq_ok, toNat_ofNat_u32 size fits]
      rw [if_neg (Nat.not_lt.mpr room)]
    · rw [landing]
      simp only [endDheader]
      rw [if_neg (Nat.not_lt.mpr inside)]
      rfl

end CdrReader

/-- How the codec reads and writes the values of a scalar type. -/
inductive ScalarCodec : FieldType → {α : Type} → (α → Value) →
    (CdrReader → Except DeserError (α × CdrReader)) →
    (CdrWriter → α → Except SerError CdrWriter) → Prop where
  | bool : ScalarCodec .bool .bool CdrReader.readBool CdrWriter.writeBool
  | uint8 : ScalarCodec .uint8 .u8 CdrReader.readU8 CdrWriter.writeU8
  | int8 : ScalarCodec .int8 .i8 CdrReader.readI8 CdrWriter.writeI8
  | uint16 : ScalarCodec .uint16 .u16 CdrReader.readU16 CdrWriter.writeU16
  | int16 : ScalarCodec .int16 .i16 CdrReader.readI16 CdrWriter.writeI16
  | uint32 : ScalarCodec .uint32 .u32 CdrReader.readU32 CdrWriter.writeU32
  | int32 : ScalarCodec .int32 .i32 CdrReader.readI32 CdrWriter.writeI32
  | uint64 : ScalarCodec .uint64 .u64 CdrReader.readU64 CdrWriter.writeU64
  | int64 : ScalarCodec .int64 .i64 CdrReader.readI64 CdrWriter.writeI64
  | float32 : ScalarCodec .float32 .f32 CdrReader.readF32 CdrWriter.writeF32
  | float64 : ScalarCodec .float64 .f64 CdrReader.readF64 CdrWriter.writeF64

namespace ScalarCodec

variable {ty : FieldType} {α : Type} {wrap : α → Value}
  {read : CdrReader → Except DeserError (α × CdrReader)}
  {write : CdrWriter → α → Except SerError CdrWriter}

theorem read_of_holds (codec : ScalarCodec ty wrap read write) {v : Value} {r : CdrReader}
    (conforms : Conforms ty v) (ready : r.Ready) (holds : r.Holds (cdrWire r.version ty v)) :
    ∃ value, v = wrap value ∧ read r = .ok (value, r.skip (cdrWire r.version ty v)) := by
  cases codec <;> obtain ⟨value, rfl⟩ := conforms <;> refine ⟨value, rfl, ?_⟩
  case bool => exact r.readBool_of_holds ready value holds
  case uint8 => exact r.readU8_of_holds ready value holds
  case int8 => exact r.readI8_of_holds ready value holds
  case uint16 => exact r.readU16_of_holds ready value holds
  case int16 => exact r.readI16_of_holds ready value holds
  case uint32 => exact r.readU32_of_holds ready value holds
  case int32 => exact r.readI32_of_holds ready value holds
  case uint64 => exact r.readU64_of_holds ready value holds
  case int64 => exact r.readI64_of_holds ready value holds
  case float32 => exact r.readF32_of_holds ready value holds
  case float64 => exact r.readF64_of_holds ready value holds

theorem write_eq_emit (codec : ScalarCodec ty wrap read write) (w : CdrWriter) (ready : w.Ready)
    (value : α) : write w value = w.emit (cdrWire w.version ty (wrap value)) := by
  cases codec with
  | bool | uint8 | int8 => rfl
  | _ => exact w.writeWord_eq_emit ready _ _

end ScalarCodec

section Encode

variable {σ : Type} [SchemaSink σ]

/-- The reader moves over the wire, the sink takes the push. -/
def passes (r : CdrReader) (wire : Wire UInt8) (pushed : Except SchemaError σ) :
    Except SchemaError (CdrReader × σ) :=
  (fun k => (r.skip wire, k)) <$> pushed

omit [SchemaSink σ] in
theorem transfer_of_read {α : Type} {read : CdrReader → Except DeserError (α × CdrReader)}
    (put : α → σ → Except SchemaError σ) {r : CdrReader} {value : α} {wire : Wire UInt8}
    (found : read r = .ok (value, r.skip wire)) (k : σ) :
    transfer read put (r, k) = passes r wire (put value k) := by
  simp only [transfer, found, cdrRead_ok, ok_bind]
  cases put value k <;> rfl

variable (item : CdrReader × σ → Except SchemaError (CdrReader × σ))

variable (wire : EncodingVersion → Value → Wire UInt8)

variable (push : Value → σ → Except SchemaError σ)

omit [SchemaSink σ] in
theorem repeatM_of_carries (items : List Value) (r : CdrReader) (k : σ)
    (spec : ∀ v ∈ items, ∀ next k, next.version = r.version → next.Carries (wire next.version v) →
      item (next, k) = passes next (wire next.version v) (push v k))
    (carried : r.Carries (Wire.many (wire r.version) items)) :
    repeatM items.length item (r, k) =
      passes r (Wire.many (wire r.version) items) (items.foldlM (fun k v => push v k) k) := by
  induction items generalizing r k with
  | nil => rfl
  | cons v items ih =>
    obtain ⟨first, others⟩ := carried.split
    have step := spec v List.mem_cons_self r k rfl first
    rw [List.length_cons, repeatM, step, passes, map_bind_eq, List.foldlM_cons]
    cases push v k with
    | error e => rfl
    | ok next =>
      have rest := ih (r.skip (wire r.version v)) next
        (fun item member => spec item (List.mem_cons_of_mem v member)) others
      rw [ok_bind, ok_bind, rest, passes, passes, CdrReader.skip_andThen r carried.ready]
      rfl

theorem encodeItems_of_carries (wire : Value → Wire UInt8) (push : Value → σ → Except SchemaError σ)
    (items : List Value) (r : CdrReader) (loop : ∀ k, repeatM items.length item (r, k) =
      passes r (Wire.many wire items) (items.foldlM (fun k v => push v k) k)) (k : σ) :
    encodeItems items.length item (r, k) = passes r (Wire.many wire items) (do
      let k ← SchemaSink.seqBegin items.length k
      let k ← items.foldlM (fun k v => push v k) k
      SchemaSink.seqEnd k) := by
  simp only [encodeItems]
  cases SchemaSink.seqBegin items.length k with
  | error e => rfl
  | ok entered =>
    simp only [ok_bind, loop, passes, map_bind_eq]
    cases items.foldlM (fun k v => push v k) entered with
    | error e => rfl
    | ok filled =>
      simp only [ok_bind]
      cases SchemaSink.seqEnd filled <;> rfl

theorem encodeSequence_of_carries (items : List Value) (r : CdrReader)
    (fits : items.length ≤ u32Max)
    (spec : ∀ v ∈ items, ∀ next k, next.version = r.version → next.Carries (wire next.version v) →
      item (next, k) = passes next (wire next.version v) (push v k)) (carried : r.Carries
      ((cdrWord r.version 4 items.length).andThen (Wire.many (wire r.version) items))) (k : σ) :
    (cdrRead r.readSequenceLen >>= fun counted => encodeItems counted.1 item (counted.2, k)) =
        passes r ((cdrWord r.version 4 items.length).andThen (Wire.many (wire r.version) items)) (do
          let k ← SchemaSink.seqBegin items.length k
          let k ← items.foldlM (fun k v => push v k) k
          SchemaSink.seqEnd k) ∧
      r.readSequenceLen = .ok (items.length, r.skip (cdrWord r.version 4 items.length)) := by
  obtain ⟨counted, elements⟩ := carried.split
  have length := r.readSequenceLen_of_holds carried.ready _ fits counted.holds
  refine ⟨?_, length⟩
  have body := encodeItems_of_carries item (wire r.version) push items
    (r.skip (cdrWord r.version 4 items.length))
    (fun k => repeatM_of_carries item wire push items _ k spec elements) k
  rw [length, cdrRead_ok, ok_bind, body]
  simp only [passes, CdrReader.skip_andThen r carried.ready]

mutual

/-- Reading a value off its own wire, by its own schema or by one that dropped trailing fields:
the sink gets the projection of the value and the reader stops behind the wire. -/
theorem encodeOne_of_carries : ∀ (ty ty' : FieldType) (v : Value) (r : CdrReader) (k : σ),
    DropsTrailing ty ty' → (r.version = .xcdr1 → ty' = ty) → Conforms ty v → LengthsFit ty v →
    r.Carries (cdrWire r.version ty v) →
    encodeOne ty' (r, k) = passes r (cdrWire r.version ty v) (pushOne ty' (project ty' v) k)
  | .bool | .uint8 | .int8 | .uint16 | .int16 | .uint32 | .int32 | .uint64 | .int64 | .float32
  | .float64 => fun ty' v r k drops _ conforms _ carried => by
    cases drops
    obtain ⟨value, rfl, found⟩ :=
      ScalarCodec.read_of_holds (by constructor) conforms carried.ready carried.holds
    exact transfer_of_read _ found k
  | .string => fun ty' v r k drops _ conforms lengths carried => by
    cases drops
    obtain ⟨s, rfl⟩ := conforms
    exact transfer_of_read _ (r.readString_of_holds carried.ready s lengths carried.holds) k
  | .boundedString n => fun ty' v r k drops _ conforms lengths carried => by
    cases drops
    obtain ⟨s, rfl, bound⟩ := conforms
    have found := r.readString_of_holds carried.ready s lengths carried.holds
    simp only [encodeOne, found, cdrRead_ok, ok_bind, if_neg (Nat.not_lt.mpr bound), project,
      pushOne]
    cases SchemaSink.putStr s k <;> rfl
  | .wString => fun _ _ _ _ _ _ conforms _ _ => by cases conforms
  | .boundedWString _ => fun _ _ _ _ _ _ conforms _ _ => by cases conforms
  | .nested ⟨name, fields⟩ => fun ty' v r k drops same conforms lengths carried => by
    obtain ⟨fields', rfl, shorter⟩ := drops
    obtain ⟨members, rfl, inside⟩ := conforms
    obtain ⟨front, back, split, whole, walked⟩ :=
      encodeFields_of_carries r.version fields fields' members shorter
        (fun kind => by cases same kind; rfl) inside lengths
    have full : r.version = .xcdr1 → back = Wire.empty := fun kind => by
      cases same kind
      exact whole rfl
    simp only [cdrWire] at carried ⊢
    rw [split] at carried ⊢
    obtain ⟨scope, opened, begun, kind, body, closed⟩ :=
      r.dheader_scope front back carried full
    simp only [encodeOne, begun, cdrRead_ok, ok_bind, project, pushOne]
    cases SchemaSink.structBegin name k with
    | error e => rfl
    | ok entered =>
      simp only [ok_bind, walked opened entered kind body, passes, map_bind_eq]
      cases pushFields fields' (projectFields fields' members) entered with
      | error e => rfl
      | ok filled =>
        simp only [ok_bind]
        cases SchemaSink.structEnd filled with
        | error e => rfl
        | ok left => simp only [ok_bind, closed, cdrRead_ok, pure_eq_ok, ok_map]
  | .array n inner => fun ty' v r k drops same conforms lengths carried => by
    obtain ⟨inner', rfl, shorter⟩ := drops
    obtain ⟨items, rfl, rfl, inside⟩ := conforms
    have equal : r.version = .xcdr1 → inner' = inner := fun kind => by
      cases same kind
      rfl
    have loop := fun k => repeatM_of_carries (encodeOne inner') (cdrWire · inner)
      (fun v => pushOne inner' (project inner' v)) items r k
      (fun v member next k kind => encodeOne_of_carries inner inner' v next k shorter
        (fun old => equal (kind.symm.trans old)) (inside v member) (lengths v member))
      carried
    simp only [encodeOne, project, pushOne, cdrWire, List.foldlM_map]
    cases SchemaSink.arrayBegin items.length k with
    | error e => rfl
    | ok entered =>
      simp only [ok_bind, loop, passes, map_bind_eq]
      cases items.foldlM (fun k v => pushOne inner' (project inner' v) k) entered with
      | error e => rfl
      | ok filled =>
        simp only [ok_bind]
        cases SchemaSink.arrayEnd filled <;> rfl
  | .sequence inner => fun ty' v r k drops same conforms lengths carried => by
    obtain ⟨inner', rfl, shorter⟩ := drops
    obtain ⟨items, rfl, inside⟩ := conforms
    have equal : r.version = .xcdr1 → inner' = inner := fun kind => by
      cases same kind
      rfl
    have walked := (encodeSequence_of_carries (encodeOne inner') (cdrWire · inner)
      (fun v => pushOne inner' (project inner' v)) items r lengths.1
      (fun v member next k kind => encodeOne_of_carries inner inner' v next k shorter
        (fun old => equal (kind.symm.trans old)) (inside v member) (lengths.2 v member))
      carried k).1
    simpa only [encodeOne, project, pushOne, cdrWire, List.foldlM_map, List.length_map] using walked
  | .boundedSequence cap inner => fun ty' v r k drops same conforms lengths carried => by
    obtain ⟨inner', rfl, shorter⟩ := drops
    obtain ⟨items, rfl, bound, inside⟩ := conforms
    have equal : r.version = .xcdr1 → inner' = inner := fun kind => by
      cases same kind
      rfl
    rcases encodeSequence_of_carries (encodeOne inner') (cdrWire · inner)
      (fun v => pushOne inner' (project inner' v)) items r lengths.1
      (fun v member next k kind => encodeOne_of_carries inner inner' v next k shorter
        (fun old => equal (kind.symm.trans old)) (inside v member) (lengths.2 v member))
      carried k with ⟨walked, counted⟩
    simp only [counted, cdrRead_ok, ok_bind] at walked
    simpa only [encodeOne, project, pushOne, cdrWire, List.foldlM_map, List.length_map, counted,
      cdrRead_ok, ok_bind, if_neg (Nat.not_lt.mpr bound)] using walked

theorem encodeFields_of_carries (version : EncodingVersion) :
    ∀ (fields fields' : List Field) (members : List Value),
    DropsTrailingFields fields fields' → (version = .xcdr1 → fields' = fields) →
    ConformsFields fields members → LengthsFitFields fields members →
    ∃ front back, cdrWireFields version fields members = front.andThen back ∧
      (fields' = fields → back = Wire.empty) ∧
      ∀ (r : CdrReader) (k : σ), r.version = version → r.Carries (front.andThen back) →
        encodeFields fields' (r, k) =
          passes r front (pushFields fields' (projectFields fields' members) k)
  | [], fields', members, drops, same, conforms, lengths => by
    cases drops
    cases conforms
    refine ⟨Wire.empty, Wire.empty, rfl, fun _ => rfl, ?_⟩
    intro r k _ _
    rfl
  | ⟨name, ty, offset⟩ :: fields, fields', members, drops, same, conforms, lengths => by
    obtain ⟨v, rest, rfl, first, others⟩ := conforms
    rcases drops with rfl | ⟨ty', rest', rfl, shorter, tail⟩
    · refine ⟨Wire.empty, cdrWireFields version (⟨name, ty, offset⟩ :: fields) (v :: rest),
        (Wire.empty_andThen _).symm, (by intro empty; cases empty), ?_⟩
      intro r k _ _
      rfl
    · have equal : version = .xcdr1 → ty' = ty ∧ rest' = fields := fun kind => by
        cases same kind
        exact ⟨rfl, rfl⟩
      obtain ⟨front, back, split, whole, walked⟩ :=
        encodeFields_of_carries version fields rest' rest tail (fun kind => (equal kind).2) others
          lengths.2
      refine ⟨(cdrWire version ty v).andThen front, back, ?_, ?_, ?_⟩
      · rw [cdrWireFields, split, Wire.andThen_assoc]
      · intro schemas
        cases schemas
        exact whole rfl
      · intro r k kind carried
        rw [Wire.andThen_assoc] at carried
        obtain ⟨head, behind⟩ := carried.split
        simp only [encodeFields, projectFields, pushFields]
        cases SchemaSink.fieldBegin ⟨name, ty', offset⟩ k with
        | error e => rfl
        | ok entered =>
          rw [← kind] at head equal
          have step := encodeOne_of_carries ty ty' v r entered shorter
            (fun version => (equal version).1) first lengths.1 head
          simp only [ok_bind, step, passes, map_bind_eq]
          cases pushOne ty' (project ty' v) entered with
          | error e => rfl
          | ok filled =>
            simp only [ok_bind]
            cases SchemaSink.fieldEnd ⟨name, ty', offset⟩ filled with
            | error e => rfl
            | ok left =>
              rw [← kind] at behind
              rw [ok_bind, ok_bind, walked (r.skip (cdrWire r.version ty v)) left kind behind, passes,
                CdrReader.skip_andThen r carried.ready, kind]

end

end Encode

section Pull

variable {σ : Type} [SchemaSource σ]

def takeAs {α : Type} (wrap : α → Value) (take : σ → Except SchemaError (α × σ)) (s : σ) :
    Except SchemaError (Value × σ) := do
  let (value, s) ← take s
  return (wrap value, s)

def pullItems (pull : σ → Except SchemaError (Value × σ)) :
    Nat → σ → Except SchemaError (List Value × σ)
  | 0, s => .ok ([], s)
  | n + 1, s => do
    let (v, s) ← pull s
    let (items, s) ← pullItems pull n s
    return (v :: items, s)

mutual

def pullOne : FieldType → σ → Except SchemaError (Value × σ)
  | .bool, s => takeAs .bool SchemaSource.takeBool s
  | .uint8, s => takeAs .u8 SchemaSource.takeU8 s
  | .int8, s => takeAs .i8 SchemaSource.takeI8 s
  | .uint16, s => takeAs .u16 SchemaSource.takeU16 s
  | .int16, s => takeAs .i16 SchemaSource.takeI16 s
  | .uint32, s => takeAs .u32 SchemaSource.takeU32 s
  | .int32, s => takeAs .i32 SchemaSource.takeI32 s
  | .uint64, s => takeAs .u64 SchemaSource.takeU64 s
  | .int64, s => takeAs .i64 SchemaSource.takeI64 s
  | .float32, s => takeAs .f32 SchemaSource.takeF32 s
  | .float64, s => takeAs .f64 SchemaSource.takeF64 s
  | .string, s => takeAs .str SchemaSource.takeStr s
  | .boundedString n, s => do
    let (text, s) ← SchemaSource.takeStr s
    if (asBytes text).length > n then throw .malformed
    return (.str text, s)
  | .wString, _ => .error .malformed
  | .boundedWString _, _ => .error .malformed
  | .nested ⟨typeName, fields⟩, s => do
    let s ← SchemaSource.structBegin typeName s
    let (members, s) ← pullFields fields s
    let s ← SchemaSource.structEnd s
    return (.struct members, s)
  | .array n inner, s => do
    let s ← SchemaSource.arrayBegin n s
    let (items, s) ← pullItems (pullOne inner) n s
    let s ← SchemaSource.arrayEnd s
    return (.array items, s)
  | .sequence inner, s => do
    let (n, s) ← SchemaSource.seqBegin s
    let (items, s) ← pullItems (pullOne inner) n s
    let s ← SchemaSource.seqEnd s
    return (.seq items, s)
  | .boundedSequence cap inner, s => do
    let (n, s) ← SchemaSource.seqBegin s
    if n > cap then throw .malformed
    let (items, s) ← pullItems (pullOne inner) n s
    let s ← SchemaSource.seqEnd s
    return (.seq items, s)

def pullFields : List Field → σ → Except SchemaError (List Value × σ)
  | [], s => .ok ([], s)
  | ⟨name, ty, offset⟩ :: fields, s => do
    let s ← SchemaSource.fieldBegin ⟨name, ty, offset⟩ s
    let (v, s) ← pullOne ty s
    let s ← SchemaSource.fieldEnd ⟨name, ty, offset⟩ s
    let (members, s) ← pullFields fields s
    return (v :: members, s)

end

section Inversion

variable {s rest : σ} {v : Value}

theorem pullOne_boundedString_eq_ok {n : Nat}
    (pulled : pullOne (.boundedString n) s = .ok (v, rest)) :
    ∃ text, SchemaSource.takeStr s = .ok (text, rest) ∧ ¬ (asBytes text).length > n ∧
      v = .str text := by
  rcases bind_eq_ok.mp pulled with ⟨⟨text, next⟩, taken, checked⟩
  by_cases long : (asBytes text).length > n
  · simp only [if_pos long] at checked
    cases checked
  · simp only [if_neg long] at checked
    cases checked
    exact ⟨text, taken, long, rfl⟩

theorem pullOne_nested_eq_ok {name : String} {fields : List Field}
    (pulled : pullOne (.nested ⟨name, fields⟩) s = .ok (v, rest)) :
    ∃ entered members middle, SchemaSource.structBegin name s = .ok entered ∧
      pullFields fields entered = .ok (members, middle) ∧
      SchemaSource.structEnd middle = .ok rest ∧ v = .struct members := by
  rcases bind_eq_ok.mp pulled with ⟨entered, begun, filled⟩
  rcases bind_eq_ok.mp filled with ⟨⟨members, middle⟩, inside, closing⟩
  rcases bind_eq_ok.mp closing with ⟨left, ended, same⟩
  cases same
  exact ⟨entered, members, middle, begun, inside, ended, rfl⟩

theorem pullOne_array_eq_ok {n : Nat} {inner : FieldType}
    (pulled : pullOne (.array n inner) s = .ok (v, rest)) :
    ∃ entered items middle, SchemaSource.arrayBegin n s = .ok entered ∧
      pullItems (pullOne inner) n entered = .ok (items, middle) ∧
      SchemaSource.arrayEnd middle = .ok rest ∧ v = .array items := by
  rcases bind_eq_ok.mp pulled with ⟨entered, begun, filled⟩
  rcases bind_eq_ok.mp filled with ⟨⟨items, middle⟩, inside, closing⟩
  rcases bind_eq_ok.mp closing with ⟨left, ended, same⟩
  cases same
  exact ⟨entered, items, middle, begun, inside, ended, rfl⟩

theorem pullOne_sequence_eq_ok {inner : FieldType}
    (pulled : pullOne (.sequence inner) s = .ok (v, rest)) :
    ∃ n entered items middle, SchemaSource.seqBegin s = .ok (n, entered) ∧
      pullItems (pullOne inner) n entered = .ok (items, middle) ∧
      SchemaSource.seqEnd middle = .ok rest ∧ v = .seq items := by
  rcases bind_eq_ok.mp pulled with ⟨⟨n, entered⟩, begun, filled⟩
  rcases bind_eq_ok.mp filled with ⟨⟨items, middle⟩, inside, closing⟩
  rcases bind_eq_ok.mp closing with ⟨left, ended, same⟩
  cases same
  exact ⟨n, entered, items, middle, begun, inside, ended, rfl⟩

theorem pullOne_boundedSequence_eq_ok {cap : Nat} {inner : FieldType}
    (pulled : pullOne (.boundedSequence cap inner) s = .ok (v, rest)) :
    ∃ n entered items middle, SchemaSource.seqBegin s = .ok (n, entered) ∧ ¬ n > cap ∧
      pullItems (pullOne inner) n entered = .ok (items, middle) ∧
      SchemaSource.seqEnd middle = .ok rest ∧ v = .seq items := by
  rcases bind_eq_ok.mp pulled with ⟨⟨n, entered⟩, begun, checked⟩
  by_cases beyond : n > cap
  · simp only [if_pos beyond] at checked
    cases checked
  · simp only [if_neg beyond] at checked
    rcases bind_eq_ok.mp checked with ⟨⟨items, middle⟩, inside, closing⟩
    rcases bind_eq_ok.mp closing with ⟨left, ended, same⟩
    cases same
    exact ⟨n, entered, items, middle, begun, beyond, inside, ended, rfl⟩

theorem pullFields_cons_eq_ok {name : String} {ty : FieldType} {offset : Nat}
    {fields : List Field} {members : List Value}
    (pulled : pullFields (⟨name, ty, offset⟩ :: fields) s = .ok (members, rest)) :
    ∃ entered v middle left others, SchemaSource.fieldBegin ⟨name, ty, offset⟩ s = .ok entered ∧
      pullOne ty entered = .ok (v, middle) ∧
      SchemaSource.fieldEnd ⟨name, ty, offset⟩ middle = .ok left ∧
      pullFields fields left = .ok (others, rest) ∧ members = v :: others := by
  rcases bind_eq_ok.mp pulled with ⟨entered, begun, one⟩
  rcases bind_eq_ok.mp one with ⟨⟨v, middle⟩, first, closing⟩
  rcases bind_eq_ok.mp closing with ⟨left, ended, more⟩
  rcases bind_eq_ok.mp more with ⟨⟨others, last⟩, second, same⟩
  cases same
  exact ⟨entered, v, middle, left, others, begun, first, ended, second, rfl⟩

end Inversion

/-- The source ends in `rest`, the writer emits the wire. -/
def emits (rest : σ) (w : CdrWriter) (wire : Wire UInt8) : Except SchemaError (σ × CdrWriter) :=
  (fun w => (rest, w)) <$> cdrWrite (w.emit wire)

omit [SchemaSource σ] in
theorem emits_cases (rest : σ) (w : CdrWriter) (ready : w.Ready) (wire : Wire UInt8) :
    (∃ e, w.emit wire = .error e ∧ emits rest w wire = .error (.cdrWrite e)) ∨
    (∃ next, w.emit wire = .ok next ∧ emits rest w wire = .ok (rest, next) ∧ next.Ready ∧
      next.version = w.version) := by
  cases done : w.emit wire with
  | error e => exact .inl ⟨e, rfl, by simp [emits, done]⟩
  | ok next =>
    obtain ⟨moved, _, nextReady⟩ := CdrWriter.emit_eq_ok ready done
    exact .inr ⟨next, rfl, by simp [emits, done], nextReady, by rw [moved]; rfl⟩

omit [SchemaSource σ] in
theorem emits_andThen (middle rest : σ) (w : CdrWriter) (ready : w.Ready)
    (first second : Wire UInt8) (next : σ × CdrWriter → Except SchemaError (σ × CdrWriter))
    (spec : ∀ w' : CdrWriter, w'.Ready → w'.version = w.version →
      next (middle, w') = emits rest w' second) :
    (emits middle w first >>= next) = emits rest w (first.andThen second) := by
  have joined := CdrWriter.emit_emit w ready first second
  rcases emits_cases middle w ready first with ⟨e, failed, outcome⟩ | ⟨w', done, outcome, ready', kind⟩
  · rw [failed, error_bind] at joined
    rw [outcome, error_bind, emits, ← joined]
    rfl
  · rw [done, ok_bind] at joined
    rw [outcome, ok_bind, spec w' ready' kind, emits, emits, joined]

omit [SchemaSource σ] in
theorem emits_hook {middle rest : σ} (hook : σ → Except SchemaError σ)
    (ended : hook middle = .ok rest) (w : CdrWriter) (wire : Wire UInt8) :
    (emits middle w wire >>= fun state => hook state.1 >>= fun s => pure (s, state.2)) =
      emits rest w wire := by
  simp only [emits, map_bind_eq, ended, ok_bind, pure_eq_ok]
  cases w.emit wire <;> rfl

omit [SchemaSource σ] in
theorem emitOne_of_take {α : Type} {take : σ → Except SchemaError (α × σ)} {wrap : α → Value}
    {s rest : σ} {v : Value} (write : CdrWriter → α → Except SerError CdrWriter) (w : CdrWriter)
    (wire : α → Wire UInt8) (pulled : takeAs wrap take s = .ok (v, rest))
    (spec : ∀ value, v = wrap value → write w value = w.emit (wire value)) :
    ∃ value, v = wrap value ∧ emitOne take write (s, w) = emits rest w (wire value) := by
  obtain ⟨⟨value, next⟩, taken, wrapped⟩ := bind_eq_ok.mp pulled
  cases wrapped
  refine ⟨value, rfl, ?_⟩
  simp only [emitOne, taken, ok_bind, spec value rfl, emits]
  cases w.emit (wire value) <;> rfl

omit [SchemaSource σ] in
theorem emitScalar_of_take {α : Type} {take : σ → Except SchemaError (α × σ)} {wrap : α → Value}
    {read : CdrReader → Except DeserError (α × CdrReader)}
    {write : CdrWriter → α → Except SerError CdrWriter} {ty : FieldType} {s rest : σ} {v : Value}
    (codec : ScalarCodec ty wrap read write) (w : CdrWriter) (ready : w.Ready)
    (pulled : takeAs wrap take s = .ok (v, rest)) :
    emitOne take write (s, w) = emits rest w (cdrWire w.version ty v) := by
  rcases emitOne_of_take write w (fun value => cdrWire w.version ty (wrap value)) pulled
    (fun value _ => codec.write_eq_emit w ready value) with ⟨value, rfl, done⟩
  exact done

omit [SchemaSource σ] in
theorem length_pullItems (pull : σ → Except SchemaError (Value × σ)) (n : Nat) (s rest : σ)
    (items : List Value) (pulled : pullItems pull n s = .ok (items, rest)) :
    items.length = n := by
  induction n generalizing s items with
  | zero =>
    cases pulled
    rfl
  | succ n ih =>
    rcases bind_eq_ok.mp pulled with ⟨⟨v, middle⟩, first, more⟩
    rcases bind_eq_ok.mp more with ⟨⟨others, last⟩, second, done⟩
    cases done
    rw [List.length_cons, ih middle others second]

section

variable (item : σ × CdrWriter → Except SchemaError (σ × CdrWriter))

variable (pull : σ → Except SchemaError (Value × σ))

variable (wire : EncodingVersion → Value → Wire UInt8)

omit [SchemaSource σ] in
theorem repeatM_of_pull (ok : Value → Prop)
    (spec : ∀ s rest v (w : CdrWriter), pull s = .ok (v, rest) → ok v → w.Ready →
      item (s, w) = emits rest w (wire w.version v)) (n : Nat) (s rest : σ) (items : List Value)
    (w : CdrWriter) (pulled : pullItems pull n s = .ok (items, rest)) (fine : ∀ v ∈ items, ok v)
    (ready : w.Ready) :
    repeatM n item (s, w) = emits rest w (Wire.many (wire w.version) items) := by
  induction n generalizing s items w with
  | zero =>
    cases pulled
    rw [repeatM, Wire.many, emits, CdrWriter.emit_empty w ready]
    rfl
  | succ n ih =>
    rcases bind_eq_ok.mp pulled with ⟨⟨v, middle⟩, first, more⟩
    rcases bind_eq_ok.mp more with ⟨⟨others, last⟩, second, done⟩
    cases done
    rcases List.forall_mem_cons.mp fine with ⟨head, tail⟩
    rw [repeatM, spec s middle v w first head ready, Wire.many]
    apply emits_andThen middle rest w ready
    intro w' ready' kind
    rw [← kind]
    exact ih middle others w' second tail ready'

theorem decodeItems_of_pull (ok : Value → Prop)
    (spec : ∀ s rest v (w : CdrWriter), pull s = .ok (v, rest) → ok v → w.Ready →
      item (s, w) = emits rest w (wire w.version v)) (n : Nat) (s middle rest : σ)
    (items : List Value) (w : CdrWriter) (pulled : pullItems pull n s = .ok (items, middle))
    (fits : items.length ≤ u32Max) (fine : ∀ v ∈ items, ok v) (ready : w.Ready)
    (ended : SchemaSource.seqEnd middle = .ok rest) :
    decodeItems n item (s, w) = emits rest w ((cdrWord w.version 4 items.length).andThen
        (Wire.many (wire w.version) items)) := by
  cases length_pullItems pull n s middle items pulled
  rw [← emits_andThen s rest w ready (cdrWord w.version 4 items.length)
    (Wire.many (wire w.version) items)
    (fun state => repeatM items.length item state >>= fun out =>
      SchemaSource.seqEnd out.1 >>= fun source => pure (source, out.2))]
  · simp only [decodeItems, emits, map_bind_eq, w.writeSequenceLen_eq_emit ready _ fits]
  · intro w' ready' kind
    rw [← kind, repeatM_of_pull item pull wire ok spec items.length s middle items w' pulled fine
      ready']
    exact emits_hook SchemaSource.seqEnd ended w' _

end

mutual

theorem decodeOne_of_pull : ∀ (ty : FieldType) (s rest : σ) (v : Value) (w : CdrWriter),
    pullOne ty s = .ok (v, rest) → LengthsFit ty v → w.Ready →
    decodeOne ty (s, w) = emits rest w (cdrWire w.version ty v)
  | .bool | .uint8 | .int8 | .uint16 | .int16 | .uint32 | .int32 | .uint64 | .int64 | .float32
  | .float64 => fun s rest v w pulled _ ready => by
    exact emitScalar_of_take (by constructor) w ready pulled
  | .string => fun s rest v w pulled lengths ready => by
    obtain ⟨text, rfl, done⟩ := emitOne_of_take CdrWriter.writeString w
      (cdrString w.version) pulled (fun text same => by
        cases same
        exact w.writeString_eq_emit ready text lengths)
    exact done
  | .boundedString n => fun s rest v w pulled lengths ready => by
    rcases pullOne_boundedString_eq_ok pulled with ⟨text, taken, short, rfl⟩
    have written := w.writeString_eq_emit ready text lengths
    simp only [decodeOne, taken, ok_bind, if_neg short, written, emits, cdrWire]
    cases w.emit (cdrString w.version text) <;> rfl
  | .wString => fun _ _ _ _ pulled _ _ => by cases pulled
  | .boundedWString _ => fun _ _ _ _ pulled _ _ => by cases pulled
  | .nested ⟨name, fields⟩ => fun s rest v w pulled lengths ready => by
    rcases pullOne_nested_eq_ok pulled with ⟨entered, members, middle, begun, inside, ended, rfl⟩
    have bracket := w.dheader_bracket ready (cdrWireFields w.version fields members)
      (fun w' => w'.emit (cdrWireFields w.version fields members)) (fun _ _ _ => rfl)
    simp only [decodeOne, cdrWire, emits, ← bracket]
    cases opening : w.beginDheader with
    | error e => rfl
    | ok opened =>
      obtain ⟨mark, w'⟩ := opened
      obtain ⟨ready', kind⟩ := CdrWriter.beginDheader_ready ready opening
      have walked := decodeFields_of_pull fields entered middle members w' inside lengths ready'
      rw [kind] at walked
      simp only [cdrWrite_ok, ok_bind, begun, walked, emits, map_bind_eq]
      cases w'.emit (cdrWireFields w.version fields members) with
      | error e => rfl
      | ok next =>
        simp only [cdrWrite_ok, ok_bind, ended]
        cases next.endDheader mark <;> rfl
  | .array n inner => fun s rest v w pulled lengths ready => by
    rcases pullOne_array_eq_ok pulled with ⟨entered, items, middle, begun, inside, ended, rfl⟩
    have loop := repeatM_of_pull (decodeOne inner) (pullOne inner) (cdrWire · inner)
      (LengthsFit inner) (decodeOne_of_pull inner) n entered middle items w inside lengths ready
    simp only [decodeOne, begun, ok_bind, loop, cdrWire]
    exact emits_hook SchemaSource.arrayEnd ended w _
  | .sequence inner => fun s rest v w pulled lengths ready => by
    rcases pullOne_sequence_eq_ok pulled with
      ⟨n, entered, items, middle, begun, inside, ended, rfl⟩
    simp only [decodeOne, begun, ok_bind, cdrWire]
    exact decodeItems_of_pull (decodeOne inner) (pullOne inner) (cdrWire · inner)
      (LengthsFit inner) (decodeOne_of_pull inner) n entered middle rest items w inside
      lengths.1 lengths.2 ready ended
  | .boundedSequence cap inner => fun s rest v w pulled lengths ready => by
    rcases pullOne_boundedSequence_eq_ok pulled with
      ⟨n, entered, items, middle, begun, within, inside, ended, rfl⟩
    simp only [decodeOne, begun, ok_bind, cdrWire, if_neg within]
    exact decodeItems_of_pull (decodeOne inner) (pullOne inner) (cdrWire · inner)
      (LengthsFit inner) (decodeOne_of_pull inner) n entered middle rest items w inside
      lengths.1 lengths.2 ready ended

theorem decodeFields_of_pull : ∀ (fields : List Field) (s rest : σ) (members : List Value)
    (w : CdrWriter), pullFields fields s = .ok (members, rest) → LengthsFitFields fields members →
    w.Ready → decodeFields fields (s, w) = emits rest w (cdrWireFields w.version fields members)
  | [], s, rest, members, w, pulled, _, ready => by
    cases pulled
    simp only [decodeFields, cdrWireFields, emits, w.emit_empty ready]
    rfl
  | ⟨name, ty, offset⟩ :: fields, s, rest, members, w, pulled, lengths, ready => by
    rcases pullFields_cons_eq_ok pulled with
      ⟨entered, v, middle, left, others, begun, first, ended, second, rfl⟩
    have step := decodeOne_of_pull ty entered middle v w first lengths.1 ready
    simp only [decodeFields, begun, ok_bind, step, cdrWireFields]
    apply emits_andThen middle rest w ready
    intro w' ready' kind
    simp only [ended, ok_bind]
    rw [← kind]
    exact decodeFields_of_pull fields left rest others w' second lengths.2 ready'

end

omit [SchemaSource σ] in
theorem emits_eq_ok {rest : σ} {w : CdrWriter} {wire : Wire UInt8} {out : σ × CdrWriter}
    (ready : w.Ready) (done : emits rest w wire = .ok out) : out.1 = rest ∧ out.2.Ready := by
  rcases emits_cases rest w ready wire with ⟨e, _, failed⟩ | ⟨next, _, stored, ready', _⟩
  · rw [failed] at done
    cases done
  · rw [stored] at done
    cases done
    exact ⟨rfl, ready'⟩

theorem decodeOne_state (ty : FieldType) (s rest : σ) (v : Value) (w : CdrWriter)
    (out : σ × CdrWriter) (pulled : pullOne ty s = .ok (v, rest)) (lengths : LengthsFit ty v)
    (ready : w.Ready) (done : decodeOne ty (s, w) = .ok out) : out.1 = rest ∧ out.2.Ready := by
  rw [decodeOne_of_pull ty s rest v w pulled lengths ready] at done
  exact emits_eq_ok ready done

section Lengths

variable (item : σ × CdrWriter → Except SchemaError (σ × CdrWriter))
  (pull : σ → Except SchemaError (Value × σ)) (ok : Value → Prop)
  (fits : ∀ s rest v (w : CdrWriter) out, pull s = .ok (v, rest) → w.Ready →
    item (s, w) = .ok out → ok v)
  (moves : ∀ s rest v (w : CdrWriter) out, pull s = .ok (v, rest) → ok v → w.Ready →
    item (s, w) = .ok out → out.1 = rest ∧ out.2.Ready)
include fits moves

omit [SchemaSource σ] in
theorem lengths_of_repeatM (n : Nat) (s rest : σ) (items : List Value) (w : CdrWriter)
    (out : σ × CdrWriter) (pulled : pullItems pull n s = .ok (items, rest)) (ready : w.Ready)
    (done : repeatM n item (s, w) = .ok out) : ∀ v ∈ items, ok v := by
  induction n generalizing s items w with
  | zero =>
    cases pulled
    simp
  | succ n ih =>
    rcases bind_eq_ok.mp pulled with ⟨⟨v, middle⟩, first, more⟩
    rcases bind_eq_ok.mp more with ⟨⟨others, last⟩, second, same⟩
    cases same
    rcases bind_eq_ok.mp done with ⟨⟨reached, w'⟩, step, later⟩
    have fine := fits s middle v w _ first ready step
    rcases moves s middle v w _ first fine ready step with ⟨rfl, ready'⟩
    exact List.forall_mem_cons.mpr ⟨fine, ih reached others w' second ready' later⟩

theorem lengths_of_decodeItems (n : Nat) (s rest : σ) (items : List Value) (w : CdrWriter)
    (out : σ × CdrWriter) (pulled : pullItems pull n s = .ok (items, rest)) (ready : w.Ready)
    (done : decodeItems n item (s, w) = .ok out) :
    items.length ≤ u32Max ∧ ∀ v ∈ items, ok v := by
  simp only [decodeItems] at done
  cases counted : w.writeSequenceLen n with
  | error e =>
    rw [counted] at done
    cases done
  | ok w' =>
    have small := CdrWriter.writeSequenceLen_fits counted
    have emitted := w.writeSequenceLen_eq_emit ready n small
    rw [counted] at done emitted
    have ready' := (CdrWriter.emit_eq_ok ready emitted.symm).2.2
    simp only [cdrWrite_ok, ok_bind] at done
    rcases bind_eq_ok.mp done with ⟨reached, walked, _⟩
    refine ⟨by rw [length_pullItems pull n s rest items pulled]; exact small, ?_⟩
    exact lengths_of_repeatM item pull ok fits moves n s rest items w' reached pulled ready' walked

end Lengths

mutual

theorem lengthsFit_of_decodeOne : ∀ (ty : FieldType) (s rest : σ) (v : Value) (w : CdrWriter)
    (out : σ × CdrWriter), pullOne ty s = .ok (v, rest) → w.Ready →
    decodeOne ty (s, w) = .ok out → LengthsFit ty v
  | .bool | .uint8 | .int8 | .uint16 | .int16 | .uint32 | .int32 | .uint64 | .int64 | .float32
  | .float64 => fun _ _ _ _ _ pulled _ _ => by
    rcases bind_eq_ok.mp pulled with ⟨⟨value, next⟩, _, wrapped⟩
    cases wrapped
    trivial
  | .string => fun s rest v w out pulled _ done => by
    rcases bind_eq_ok.mp pulled with ⟨⟨text, next⟩, taken, wrapped⟩
    cases wrapped
    simp only [decodeOne, emitOne, taken, ok_bind] at done
    rcases bind_eq_ok.mp done with ⟨w', stored, _⟩
    exact CdrWriter.writeString_fits (cdrWrite_eq_ok.mp stored)
  | .boundedString n => fun s rest v w out pulled _ done => by
    rcases pullOne_boundedString_eq_ok pulled with ⟨text, taken, short, rfl⟩
    simp only [decodeOne, taken, ok_bind, if_neg short] at done
    rcases bind_eq_ok.mp done with ⟨w', stored, _⟩
    exact CdrWriter.writeString_fits (cdrWrite_eq_ok.mp stored)
  | .wString => fun _ _ _ _ _ pulled _ _ => by cases pulled
  | .boundedWString _ => fun _ _ _ _ _ pulled _ _ => by cases pulled
  | .nested ⟨name, fields⟩ => fun s rest v w out pulled ready done => by
    rcases pullOne_nested_eq_ok pulled with ⟨entered, members, middle, begun, inside, _, rfl⟩
    simp only [decodeOne, begun, ok_bind] at done
    cases opening : w.beginDheader with
    | error e =>
      rw [opening] at done
      cases done
    | ok opened =>
      rcases opened with ⟨mark, w'⟩
      have ready' := (CdrWriter.beginDheader_ready ready opening).1
      rw [opening] at done
      simp only [cdrWrite_ok, ok_bind] at done
      rcases bind_eq_ok.mp done with ⟨reached, walked, _⟩
      exact lengthsFit_of_decodeFields fields entered middle members w' reached inside ready'
        walked
  | .array n inner => fun s rest v w out pulled ready done => by
    rcases pullOne_array_eq_ok pulled with ⟨entered, items, middle, begun, inside, _, rfl⟩
    simp only [decodeOne, begun, ok_bind] at done
    rcases bind_eq_ok.mp done with ⟨reached, walked, _⟩
    exact lengths_of_repeatM (decodeOne inner) (pullOne inner) (LengthsFit inner)
      (lengthsFit_of_decodeOne inner) (decodeOne_state inner)
      n entered middle items w reached inside ready walked
  | .sequence inner => fun s rest v w out pulled ready done => by
    rcases pullOne_sequence_eq_ok pulled with
      ⟨n, entered, items, middle, begun, inside, _, rfl⟩
    simp only [decodeOne, begun, ok_bind] at done
    exact lengths_of_decodeItems (decodeOne inner) (pullOne inner) (LengthsFit inner)
      (lengthsFit_of_decodeOne inner) (decodeOne_state inner)
      n entered middle items w out inside ready done
  | .boundedSequence cap inner => fun s rest v w out pulled ready done => by
    rcases pullOne_boundedSequence_eq_ok pulled with
      ⟨n, entered, items, middle, begun, within, inside, _, rfl⟩
    simp only [decodeOne, begun, ok_bind, if_neg within] at done
    exact lengths_of_decodeItems (decodeOne inner) (pullOne inner) (LengthsFit inner)
      (lengthsFit_of_decodeOne inner) (decodeOne_state inner)
      n entered middle items w out inside ready done

theorem lengthsFit_of_decodeFields : ∀ (fields : List Field) (s rest : σ) (members : List Value)
    (w : CdrWriter) (out : σ × CdrWriter), pullFields fields s = .ok (members, rest) → w.Ready →
    decodeFields fields (s, w) = .ok out → LengthsFitFields fields members
  | [], _, _, _, _, _, pulled, _, _ => by
    cases pulled
    trivial
  | ⟨name, ty, offset⟩ :: fields, s, rest, members, w, out, pulled, ready, done => by
    rcases pullFields_cons_eq_ok pulled with
      ⟨entered, v, middle, left, others, begun, first, ended, second, rfl⟩
    simp only [decodeFields, begun, ok_bind] at done
    rcases bind_eq_ok.mp done with ⟨⟨reached, w'⟩, walked, later⟩
    have fits := lengthsFit_of_decodeOne ty entered middle v w _ first ready walked
    rcases decodeOne_state ty entered middle v w _ first fits ready walked with ⟨rfl, ready'⟩
    simp only [ended, ok_bind] at later
    exact ⟨fits, lengthsFit_of_decodeFields fields left rest others w' out second ready' later⟩

end

end Pull

end NanoRos
