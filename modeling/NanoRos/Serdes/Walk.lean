import NanoRos.Lib.Loops
import NanoRos.Serdes.Cdr

/-! The schema-driven transcoder (`walk.rs`): one walk over a schema that reads CDR and pushes each
value into a provider's sink, and its dual that pulls values from a provider's source and writes
CDR. -/

namespace NanoRos

inductive SchemaError where
  | cdrRead (e : DeserError)
  | cdrWrite (e : SerError)
  | bufferTooSmall
  | truncated
  | malformed
  | unsupported (why : String)
  deriving DecidableEq, Repr

/-- The encode half of a provider. The structural hooks default to doing nothing. -/
class SchemaSink (σ : Type) where
  structBegin : String → σ → Except SchemaError σ := fun _ s => .ok s
  structEnd : σ → Except SchemaError σ := .ok
  fieldBegin : Field → σ → Except SchemaError σ := fun _ s => .ok s
  fieldEnd : Field → σ → Except SchemaError σ := fun _ s => .ok s
  arrayBegin : Nat → σ → Except SchemaError σ := fun _ s => .ok s
  arrayEnd : σ → Except SchemaError σ := .ok
  seqBegin : Nat → σ → Except SchemaError σ
  seqEnd : σ → Except SchemaError σ := .ok
  putBool : Bool → σ → Except SchemaError σ
  putU8 : UInt8 → σ → Except SchemaError σ
  putI8 : Int8 → σ → Except SchemaError σ
  putU16 : UInt16 → σ → Except SchemaError σ
  putI16 : Int16 → σ → Except SchemaError σ
  putU32 : UInt32 → σ → Except SchemaError σ
  putI32 : Int32 → σ → Except SchemaError σ
  putU64 : UInt64 → σ → Except SchemaError σ
  putI64 : Int64 → σ → Except SchemaError σ
  putF32 : F32 → σ → Except SchemaError σ
  putF64 : F64 → σ → Except SchemaError σ
  putStr : String → σ → Except SchemaError σ

/-- The decode half of a provider, dual to `SchemaSink`. -/
class SchemaSource (σ : Type) where
  structBegin : String → σ → Except SchemaError σ := fun _ s => .ok s
  structEnd : σ → Except SchemaError σ := .ok
  fieldBegin : Field → σ → Except SchemaError σ := fun _ s => .ok s
  fieldEnd : Field → σ → Except SchemaError σ := fun _ s => .ok s
  arrayBegin : Nat → σ → Except SchemaError σ := fun _ s => .ok s
  arrayEnd : σ → Except SchemaError σ := .ok
  seqBegin : σ → Except SchemaError (Nat × σ)
  seqEnd : σ → Except SchemaError σ := .ok
  takeBool : σ → Except SchemaError (Bool × σ)
  takeU8 : σ → Except SchemaError (UInt8 × σ)
  takeI8 : σ → Except SchemaError (Int8 × σ)
  takeU16 : σ → Except SchemaError (UInt16 × σ)
  takeI16 : σ → Except SchemaError (Int16 × σ)
  takeU32 : σ → Except SchemaError (UInt32 × σ)
  takeI32 : σ → Except SchemaError (Int32 × σ)
  takeU64 : σ → Except SchemaError (UInt64 × σ)
  takeI64 : σ → Except SchemaError (Int64 × σ)
  takeF32 : σ → Except SchemaError (F32 × σ)
  takeF64 : σ → Except SchemaError (F64 × σ)
  takeStr : σ → Except SchemaError (String × σ)

/-- `?` on a CDR read inside the walk (`From<DeserError>`). -/
def cdrRead {α : Type} : Except DeserError α → Except SchemaError α := Except.mapError .cdrRead

/-- `?` on a CDR write inside the walk (`From<SerError>`). -/
def cdrWrite {α : Type} : Except SerError α → Except SchemaError α := Except.mapError .cdrWrite

@[simp] theorem cdrRead_ok {α : Type} (a : α) : cdrRead (.ok a) = .ok a := rfl

@[simp] theorem cdrRead_error {α : Type} (e : DeserError) :
    (cdrRead (.error e) : Except SchemaError α) = .error (.cdrRead e) := rfl

@[simp] theorem cdrWrite_ok {α : Type} (a : α) : cdrWrite (.ok a) = .ok a := rfl

@[simp] theorem cdrWrite_error {α : Type} (e : SerError) :
    (cdrWrite (.error e) : Except SchemaError α) = .error (.cdrWrite e) := rfl

theorem cdrRead_eq_ok {α : Type} {read : Except DeserError α} {a : α} :
    cdrRead read = .ok a ↔ read = .ok a := by
  cases read <;> simp

theorem cdrWrite_eq_ok {α : Type} {written : Except SerError α} {a : α} :
    cdrWrite written = .ok a ↔ written = .ok a := by
  cases written <;> simp

section Encode

variable {σ : Type} [SchemaSink σ]

/-- One value off the reader, one value into the sink. -/
def transfer {α : Type} (read : CdrReader → Except DeserError (α × CdrReader))
    (put : α → σ → Except SchemaError σ) (state : CdrReader × σ) :
    Except SchemaError (CdrReader × σ) := do
  let (value, r) ← cdrRead (read state.1)
  let sink ← put value state.2
  return (r, sink)

/-- A sequence body once its length is known. -/
def encodeItems (n : Nat) (item : CdrReader × σ → Except SchemaError (CdrReader × σ))
    (state : CdrReader × σ) : Except SchemaError (CdrReader × σ) := do
  let sink ← SchemaSink.seqBegin n state.2
  let (r, sink) ← repeatM n item (state.1, sink)
  let sink ← SchemaSink.seqEnd sink
  return (r, sink)

mutual

def encodeOne : FieldType → CdrReader × σ → Except SchemaError (CdrReader × σ)
  | .bool, s => transfer CdrReader.readBool SchemaSink.putBool s
  | .uint8, s => transfer CdrReader.readU8 SchemaSink.putU8 s
  | .int8, s => transfer CdrReader.readI8 SchemaSink.putI8 s
  | .uint16, s => transfer CdrReader.readU16 SchemaSink.putU16 s
  | .int16, s => transfer CdrReader.readI16 SchemaSink.putI16 s
  | .uint32, s => transfer CdrReader.readU32 SchemaSink.putU32 s
  | .int32, s => transfer CdrReader.readI32 SchemaSink.putI32 s
  | .uint64, s => transfer CdrReader.readU64 SchemaSink.putU64 s
  | .int64, s => transfer CdrReader.readI64 SchemaSink.putI64 s
  | .float32, s => transfer CdrReader.readF32 SchemaSink.putF32 s
  | .float64, s => transfer CdrReader.readF64 SchemaSink.putF64 s
  | .string, s => transfer CdrReader.readString SchemaSink.putStr s
  | .boundedString n, s => do
    let (text, r) ← cdrRead s.1.readString
    -- The bound is an IDL fact the peer may have violated.
    if (asBytes text).length > n then throw .malformed
    let sink ← SchemaSink.putStr text s.2
    return (r, sink)
  | .wString, _ =>
    .error (.unsupported "wstring: CdrReader has no wide-string primitive to transcode from")
  | .boundedWString _, _ =>
    .error (.unsupported "wstring: CdrReader has no wide-string primitive to transcode from")
  | .nested ⟨typeName, fields⟩, s => do
    let (scope, r) ← cdrRead s.1.beginDheader
    let sink ← SchemaSink.structBegin typeName s.2
    let (r, sink) ← encodeFields fields (r, sink)
    let sink ← SchemaSink.structEnd sink
    let r ← cdrRead (r.endDheader scope)
    return (r, sink)
  | .array n inner, s => do
    let sink ← SchemaSink.arrayBegin n s.2
    let (r, sink) ← repeatM n (encodeOne inner) (s.1, sink)
    let sink ← SchemaSink.arrayEnd sink
    return (r, sink)
  | .sequence inner, s => do
    let (n, r) ← cdrRead s.1.readSequenceLen
    encodeItems n (encodeOne inner) (r, s.2)
  | .boundedSequence cap inner, s => do
    let (n, r) ← cdrRead s.1.readSequenceLen
    if n > cap then throw .malformed
    encodeItems n (encodeOne inner) (r, s.2)

def encodeFields : List Field → CdrReader × σ → Except SchemaError (CdrReader × σ)
  | [], s => .ok s
  | ⟨name, ty, offset⟩ :: fields, s => do
    let sink ← SchemaSink.fieldBegin ⟨name, ty, offset⟩ s.2
    let (r, sink) ← encodeOne ty (s.1, sink)
    let sink ← SchemaSink.fieldEnd ⟨name, ty, offset⟩ sink
    encodeFields fields (r, sink)

end

/-- `encode_from_cdr`: the source calls it for the message and for every nested struct alike. -/
def encodeFromCdr (reader : CdrReader) (typeName : String) (schema : List Field) (sink : σ) :
    Except SchemaError (CdrReader × σ) :=
  encodeOne (.nested ⟨typeName, schema⟩) (reader, sink)

end Encode

section Decode

variable {σ : Type} [SchemaSource σ]

/-- One value off the source, one value into the writer. -/
def emitOne {α : Type} (take : σ → Except SchemaError (α × σ))
    (write : CdrWriter → α → Except SerError CdrWriter) (state : σ × CdrWriter) :
    Except SchemaError (σ × CdrWriter) := do
  let (value, source) ← take state.1
  let w ← cdrWrite (write state.2 value)
  return (source, w)

def decodeItems (n : Nat) (item : σ × CdrWriter → Except SchemaError (σ × CdrWriter))
    (state : σ × CdrWriter) : Except SchemaError (σ × CdrWriter) := do
  let w ← cdrWrite (state.2.writeSequenceLen n)
  let (source, w) ← repeatM n item (state.1, w)
  let source ← SchemaSource.seqEnd source
  return (source, w)

mutual

def decodeOne : FieldType → σ × CdrWriter → Except SchemaError (σ × CdrWriter)
  | .bool, s => emitOne SchemaSource.takeBool CdrWriter.writeBool s
  | .uint8, s => emitOne SchemaSource.takeU8 CdrWriter.writeU8 s
  | .int8, s => emitOne SchemaSource.takeI8 CdrWriter.writeI8 s
  | .uint16, s => emitOne SchemaSource.takeU16 CdrWriter.writeU16 s
  | .int16, s => emitOne SchemaSource.takeI16 CdrWriter.writeI16 s
  | .uint32, s => emitOne SchemaSource.takeU32 CdrWriter.writeU32 s
  | .int32, s => emitOne SchemaSource.takeI32 CdrWriter.writeI32 s
  | .uint64, s => emitOne SchemaSource.takeU64 CdrWriter.writeU64 s
  | .int64, s => emitOne SchemaSource.takeI64 CdrWriter.writeI64 s
  | .float32, s => emitOne SchemaSource.takeF32 CdrWriter.writeF32 s
  | .float64, s => emitOne SchemaSource.takeF64 CdrWriter.writeF64 s
  | .string, s => emitOne SchemaSource.takeStr CdrWriter.writeString s
  | .boundedString n, s => do
    let (text, source) ← SchemaSource.takeStr s.1
    if (asBytes text).length > n then throw .malformed
    let w ← cdrWrite (s.2.writeString text)
    return (source, w)
  | .wString, _ =>
    .error (.unsupported "wstring: CdrWriter has no wide-string primitive to transcode into")
  | .boundedWString _, _ =>
    .error (.unsupported "wstring: CdrWriter has no wide-string primitive to transcode into")
  | .nested ⟨typeName, fields⟩, s => do
    let (mark, w) ← cdrWrite s.2.beginDheader
    let source ← SchemaSource.structBegin typeName s.1
    let (source, w) ← decodeFields fields (source, w)
    let source ← SchemaSource.structEnd source
    let w ← cdrWrite (w.endDheader mark)
    return (source, w)
  | .array n inner, s => do
    let source ← SchemaSource.arrayBegin n s.1
    let (source, w) ← repeatM n (decodeOne inner) (source, s.2)
    let source ← SchemaSource.arrayEnd source
    return (source, w)
  | .sequence inner, s => do
    let (n, source) ← SchemaSource.seqBegin s.1
    decodeItems n (decodeOne inner) (source, s.2)
  | .boundedSequence cap inner, s => do
    let (n, source) ← SchemaSource.seqBegin s.1
    if n > cap then throw .malformed
    decodeItems n (decodeOne inner) (source, s.2)

def decodeFields : List Field → σ × CdrWriter → Except SchemaError (σ × CdrWriter)
  | [], s => .ok s
  | ⟨name, ty, offset⟩ :: fields, s => do
    let source ← SchemaSource.fieldBegin ⟨name, ty, offset⟩ s.1
    let (source, w) ← decodeOne ty (source, s.2)
    let source ← SchemaSource.fieldEnd ⟨name, ty, offset⟩ source
    decodeFields fields (source, w)

end

/-- `decode_to_cdr`: the source calls it for the message and for every nested struct alike. -/
def decodeToCdr (source : σ) (typeName : String) (schema : List Field) (writer : CdrWriter) :
    Except SchemaError (σ × CdrWriter) :=
  decodeOne (.nested ⟨typeName, schema⟩) (source, writer)

end Decode

end NanoRos
