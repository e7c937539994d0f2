import Mathlib.Data.List.Basic
import NanoRos.Lib.Counters

/-! Message schemas (`schema.rs`) and the values they describe. -/

namespace NanoRos

mutual

inductive FieldType where
  | bool
  | uint8
  | int8
  | uint16
  | int16
  | uint32
  | int32
  | uint64
  | int64
  | float32
  | float64
  | string
  | wString
  | boundedString (n : Nat)
  | boundedWString (n : Nat)
  | nested (nested : NestedType)
  | array (n : Nat) (inner : FieldType)
  | sequence (inner : FieldType)
  | boundedSequence (cap : Nat) (inner : FieldType)

structure NestedType where
  typeName : String
  fields : List Field

structure Field where
  name : String
  ty : FieldType
  offset : Nat

end

structure F32 where
  bits : UInt32
  deriving DecidableEq, Repr

structure F64 where
  bits : UInt64
  deriving DecidableEq, Repr

inductive Value where
  | bool (v : Bool)
  | u8 (v : UInt8)
  | i8 (v : Int8)
  | u16 (v : UInt16)
  | i16 (v : Int16)
  | u32 (v : UInt32)
  | i32 (v : Int32)
  | u64 (v : UInt64)
  | i64 (v : Int64)
  | f32 (v : F32)
  | f64 (v : F64)
  | str (v : String)
  | struct (members : List Value)
  | array (items : List Value)
  | seq (items : List Value)

/-- The UTF-8 bytes of a string (`str::as_bytes`). -/
def asBytes (s : String) : List UInt8 := s.toByteArray.data.toList

/-- `core::str::from_utf8`. -/
def fromUtf8 (bytes : List UInt8) : Option String := String.fromUTF8? ⟨bytes.toArray⟩

theorem fromUtf8_asBytes (s : String) : fromUtf8 (asBytes s) = some s := by
  have bytes : (⟨(asBytes s).toArray⟩ : ByteArray) = s.toByteArray := by simp [asBytes]
  rw [fromUtf8, bytes, String.fromUTF8?]
  simp [s.isValidUTF8, String.fromUTF8]

mutual

/-- A value of the shape and within the IDL bounds the schema declares. No wide-string value
exists: the codec has no primitive for one in either direction. -/
def Conforms : FieldType → Value → Prop
  | .bool, v => ∃ b, v = .bool b
  | .uint8, v => ∃ n, v = .u8 n
  | .int8, v => ∃ n, v = .i8 n
  | .uint16, v => ∃ n, v = .u16 n
  | .int16, v => ∃ n, v = .i16 n
  | .uint32, v => ∃ n, v = .u32 n
  | .int32, v => ∃ n, v = .i32 n
  | .uint64, v => ∃ n, v = .u64 n
  | .int64, v => ∃ n, v = .i64 n
  | .float32, v => ∃ x, v = .f32 x
  | .float64, v => ∃ x, v = .f64 x
  | .string, v => ∃ s, v = .str s
  | .boundedString n, v => ∃ s, v = .str s ∧ (asBytes s).length ≤ n
  | .wString, _ => False
  | .boundedWString _, _ => False
  | .nested ⟨_, fields⟩, v => ∃ members, v = .struct members ∧ ConformsFields fields members
  | .array n inner, v =>
    ∃ items, v = .array items ∧ items.length = n ∧ ∀ item ∈ items, Conforms inner item
  | .sequence inner, v => ∃ items, v = .seq items ∧ ∀ item ∈ items, Conforms inner item
  | .boundedSequence cap inner, v =>
    ∃ items, v = .seq items ∧ items.length ≤ cap ∧ ∀ item ∈ items, Conforms inner item

def ConformsFields : List Field → List Value → Prop
  | [], members => members = []
  | ⟨_, ty, _⟩ :: fields, members =>
    ∃ v rest, members = v :: rest ∧ Conforms ty v ∧ ConformsFields fields rest

end

mutual

/-- Every string and sequence is short enough for its four-byte length prefix. The writer
answers `StringTooLong` / `SequenceTooLong` for the others. -/
def LengthsFit : FieldType → Value → Prop
  | .string, .str s => (asBytes s).length + 1 ≤ u32Max
  | .boundedString _, .str s => (asBytes s).length + 1 ≤ u32Max
  | .nested ⟨_, fields⟩, .struct members => LengthsFitFields fields members
  | .array _ inner, .array items => ∀ v ∈ items, LengthsFit inner v
  | .sequence inner, .seq items => items.length ≤ u32Max ∧ ∀ v ∈ items, LengthsFit inner v
  | .boundedSequence _ inner, .seq items =>
    items.length ≤ u32Max ∧ ∀ v ∈ items, LengthsFit inner v
  | _, _ => True

def LengthsFitFields : List Field → List Value → Prop
  | ⟨_, ty, _⟩ :: fields, v :: members => LengthsFit ty v ∧ LengthsFitFields fields members
  | _, _ => True

end

end NanoRos
