import NanoRos.Lib.LittleEndian
import NanoRos.Lib.Memory
import NanoRos.Lib.Wire
import NanoRos.Serdes.Schema

/-! The CDR codec (`cdr.rs`): a writer and a reader over a byte buffer, in both encodings. -/

namespace NanoRos

open LittleEndian Memory

inductive EncodingVersion where
  | xcdr1
  | xcdr2
  deriving DecidableEq, Repr

inductive SerError where
  | bufferTooSmall
  | stringTooLong
  | sequenceTooLong
  deriving DecidableEq, Repr

inductive DeserError where
  | unexpectedEof
  | invalidData
  | invalidUtf8
  | capacityExceeded
  | invalidHeader
  | dHeaderOverrun
  deriving DecidableEq, Repr

def cdrLeHeader : List UInt8 := [0x00, 0x01, 0x00, 0x00]

def cdr2DelimitedLeHeader : List UInt8 := [0x00, 0x09, 0x00, 0x00]

def usizeMax : Nat := 2 ^ 64 - 1

/-- Under XCDR2 eight-byte primitives align to four. -/
def alignCap : EncodingVersion → Nat → Nat
  | .xcdr2, alignment => min alignment 4
  | .xcdr1, alignment => alignment

structure CdrWriter where
  buf : List UInt8
  pos : Nat
  origin : Nat
  version : EncodingVersion
  measure : Bool

namespace CdrWriter

def new (buf : List UInt8) : CdrWriter := ⟨buf, 0, 0, .xcdr1, false⟩

def newAt (buf : List UInt8) (pos : Nat) : Except SerError CdrWriter :=
  if pos > buf.length then .error .bufferTooSmall else .ok ⟨buf, pos, 0, .xcdr1, false⟩

def newAtXcdr2 (buf : List UInt8) (pos : Nat) : Except SerError CdrWriter :=
  if pos > buf.length then .error .bufferTooSmall else .ok ⟨buf, pos, 0, .xcdr2, false⟩

def newWithHeader (buf : List UInt8) : Except SerError CdrWriter :=
  if buf.length < 4 then .error .bufferTooSmall
  else .ok ⟨overwrite buf 0 cdrLeHeader, 4, 4, .xcdr1, false⟩

def newWithHeaderXcdr2 (buf : List UInt8) : Except SerError CdrWriter :=
  if buf.length < 4 then .error .bufferTooSmall
  else .ok ⟨overwrite buf 0 cdr2DelimitedLeHeader, 4, 4, .xcdr2, false⟩

def measuring (buf : List UInt8) (version : EncodingVersion) : CdrWriter :=
  ⟨buf, 0, 0, version, true⟩

def position (w : CdrWriter) : Nat := w.pos

def remaining (w : CdrWriter) : Nat :=
  if w.measure then usizeMax else w.buf.length - w.pos

def asSlice (w : CdrWriter) : List UInt8 := w.buf.take w.pos

/-- The store every writer operation ends in: check the room, copy unless measuring, advance. -/
def put (w : CdrWriter) (bytes : List UInt8) : Except SerError CdrWriter :=
  if w.remaining < bytes.length then .error .bufferTooSmall
  else .ok { w with
    buf := if w.measure then w.buf else overwrite w.buf w.pos bytes
    pos := w.pos + bytes.length }

def align (w : CdrWriter) (alignment : Nat) : Except SerError CdrWriter :=
  let offset := w.pos - w.origin
  w.put (List.replicate (padding (alignCap w.version alignment) offset) 0)

def writeU8 (w : CdrWriter) (value : UInt8) : Except SerError CdrWriter := w.put [value]

def writeBool (w : CdrWriter) (value : Bool) : Except SerError CdrWriter :=
  w.writeU8 (if value then 1 else 0)

def writeI8 (w : CdrWriter) (value : Int8) : Except SerError CdrWriter := w.writeU8 value.toUInt8

def writeBytes (w : CdrWriter) (bytes : List UInt8) : Except SerError CdrWriter := w.put bytes

/-- An aligned little-endian number of `width` bytes. -/
def writeWord (width : Nat) (w : CdrWriter) (value : Nat) : Except SerError CdrWriter := do
  let w ← w.align width
  w.put (leBytes width value)

def writeU16 (w : CdrWriter) (value : UInt16) : Except SerError CdrWriter :=
  writeWord 2 w value.toNat

def writeU32 (w : CdrWriter) (value : UInt32) : Except SerError CdrWriter :=
  writeWord 4 w value.toNat

def writeU64 (w : CdrWriter) (value : UInt64) : Except SerError CdrWriter :=
  writeWord 8 w value.toNat

def writeI16 (w : CdrWriter) (value : Int16) : Except SerError CdrWriter :=
  w.writeU16 value.toUInt16

def writeI32 (w : CdrWriter) (value : Int32) : Except SerError CdrWriter :=
  w.writeU32 value.toUInt32

def writeI64 (w : CdrWriter) (value : Int64) : Except SerError CdrWriter :=
  w.writeU64 value.toUInt64

def writeF32 (w : CdrWriter) (value : F32) : Except SerError CdrWriter := w.writeU32 value.bits

def writeF64 (w : CdrWriter) (value : F64) : Except SerError CdrWriter := w.writeU64 value.bits

def writeString (w : CdrWriter) (s : String) : Except SerError CdrWriter := do
  let len := (asBytes s).length + 1
  if len > u32Max then throw .stringTooLong
  let w ← w.writeU32 (UInt32.ofNat len)
  let w ← w.writeBytes (asBytes s)
  w.writeU8 0

def writeSequenceLen (w : CdrWriter) (len : Nat) : Except SerError CdrWriter := do
  if len > u32Max then throw .sequenceTooLong
  w.writeU32 (UInt32.ofNat len)

/-- The mark is the position of the reserved size slot, `none` under XCDR1. -/
def beginDheader (w : CdrWriter) : Except SerError (Option Nat × CdrWriter) :=
  match w.version with
  | .xcdr1 => .ok (none, w)
  | .xcdr2 => do
    let w ← w.align 4
    let slot := w.pos
    let w ← w.put [0, 0, 0, 0]
    return (some slot, w)

/-- Back-patches the slot with the size of the member block, cast to `u32`. -/
def endDheader (w : CdrWriter) (mark : Option Nat) : Except SerError CdrWriter :=
  match mark with
  | none => .ok w
  | some slot =>
    let size := w.pos - (slot + 4)
    .ok { w with buf := if w.measure then w.buf else overwrite w.buf slot (leBytes 4 size) }

end CdrWriter

structure CdrReader where
  buf : List UInt8
  pos : Nat
  origin : Nat
  version : EncodingVersion

namespace CdrReader

def new (buf : List UInt8) : CdrReader := ⟨buf, 0, 0, .xcdr1⟩

def newAt (buf : List UInt8) (pos : Nat) : Except DeserError CdrReader :=
  if pos > buf.length then .error .unexpectedEof else .ok ⟨buf, pos, 0, .xcdr1⟩

def newAtXcdr2 (buf : List UInt8) (pos : Nat) : Except DeserError CdrReader :=
  if pos > buf.length then .error .unexpectedEof else .ok ⟨buf, pos, 0, .xcdr2⟩

def newWithHeader (buf : List UInt8) : Except DeserError CdrReader :=
  if buf.length < 4 then .error .unexpectedEof
  else if buf.getD 0 0 ≠ 0x00 then .error .invalidHeader
  else if buf.getD 1 0 = 0x00 ∨ buf.getD 1 0 = 0x01 then .ok ⟨buf, 4, 4, .xcdr1⟩
  else if buf.getD 1 0 = 0x08 ∨ buf.getD 1 0 = 0x09 then .ok ⟨buf, 4, 4, .xcdr2⟩
  else .error .invalidHeader

def position (r : CdrReader) : Nat := r.pos

def isAtOrigin (r : CdrReader) : Bool := r.pos == r.origin

def remaining (r : CdrReader) : Nat := r.buf.length - r.pos

def align (r : CdrReader) (alignment : Nat) : Except DeserError CdrReader :=
  let offset := r.pos - r.origin
  let pad := padding (alignCap r.version alignment) offset
  if r.remaining < pad then .error .unexpectedEof else .ok { r with pos := r.pos + pad }

def readBytes (r : CdrReader) (len : Nat) : Except DeserError (List UInt8 × CdrReader) :=
  if r.remaining < len then .error .unexpectedEof
  else .ok (slice r.buf r.pos len, { r with pos := r.pos + len })

def readU8 (r : CdrReader) : Except DeserError (UInt8 × CdrReader) :=
  if r.remaining < 1 then .error .unexpectedEof
  else .ok (r.buf.getD r.pos 0, { r with pos := r.pos + 1 })

def readBool (r : CdrReader) : Except DeserError (Bool × CdrReader) := do
  let (value, r) ← r.readU8
  return (value != 0, r)

def readI8 (r : CdrReader) : Except DeserError (Int8 × CdrReader) := do
  let (value, r) ← r.readU8
  return (value.toInt8, r)

/-- An aligned little-endian number of `width` bytes. -/
def readWord (width : Nat) (r : CdrReader) : Except DeserError (Nat × CdrReader) := do
  let r ← r.align width
  if r.remaining < width then throw .unexpectedEof
  return (leNat (slice r.buf r.pos width), { r with pos := r.pos + width })

def readU16 (r : CdrReader) : Except DeserError (UInt16 × CdrReader) := do
  let (value, r) ← readWord 2 r
  return (UInt16.ofNat value, r)

def readU32 (r : CdrReader) : Except DeserError (UInt32 × CdrReader) := do
  let (value, r) ← readWord 4 r
  return (UInt32.ofNat value, r)

def readU64 (r : CdrReader) : Except DeserError (UInt64 × CdrReader) := do
  let (value, r) ← readWord 8 r
  return (UInt64.ofNat value, r)

def readI16 (r : CdrReader) : Except DeserError (Int16 × CdrReader) := do
  let (value, r) ← r.readU16
  return (value.toInt16, r)

def readI32 (r : CdrReader) : Except DeserError (Int32 × CdrReader) := do
  let (value, r) ← r.readU32
  return (value.toInt32, r)

def readI64 (r : CdrReader) : Except DeserError (Int64 × CdrReader) := do
  let (value, r) ← r.readU64
  return (value.toInt64, r)

def readF32 (r : CdrReader) : Except DeserError (F32 × CdrReader) := do
  let (value, r) ← r.readU32
  return (⟨value⟩, r)

def readF64 (r : CdrReader) : Except DeserError (F64 × CdrReader) := do
  let (value, r) ← r.readU64
  return (⟨value⟩, r)

/-- The length counts the terminator, which is skipped and not looked at. -/
def readString (r : CdrReader) : Except DeserError (String × CdrReader) := do
  let (prefixed, r) ← r.readU32
  let len := prefixed.toNat
  if len = 0 then throw .invalidData
  if r.remaining < len then throw .unexpectedEof
  match fromUtf8 (slice r.buf r.pos (len - 1)) with
  | some s => return (s, { r with pos := r.pos + len })
  | none => throw .invalidUtf8

def readSequenceLen (r : CdrReader) : Except DeserError (Nat × CdrReader) := do
  let (value, r) ← r.readU32
  return (value.toNat, r)

/-- The scope is the absolute end of the delimited struct, `none` under XCDR1. -/
def beginDheader (r : CdrReader) : Except DeserError (Option Nat × CdrReader) :=
  match r.version with
  | .xcdr1 => .ok (none, r)
  | .xcdr2 => do
    let (size, r) ← r.readU32
    let stop := r.pos + size.toNat
    if stop > r.buf.length then throw .unexpectedEof
    return (some stop, r)

def endDheader (r : CdrReader) (scope : Option Nat) : Except DeserError CdrReader :=
  match scope with
  | none => .ok r
  | some stop =>
    if r.pos > stop then .error .dHeaderOverrun else .ok { r with pos := stop }

end CdrReader

end NanoRos
