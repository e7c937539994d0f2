import NanoRos.Lib.Loops
import NanoRos.Serdes.Cdr

/-! The CDR wire format as a function of the offset, and the writer and the reader against it. -/

namespace NanoRos

open LittleEndian Memory

/-- Padding, then a little-endian number of `width` bytes. -/
def cdrWord (version : EncodingVersion) (width value : Nat) : Wire UInt8 :=
  (Wire.align 0 (alignCap version width)).andThen (Wire.lit (leBytes width value))

def cdrString (version : EncodingVersion) (s : String) : Wire UInt8 :=
  (cdrWord version 4 ((asBytes s).length + 1)).andThen (Wire.lit (asBytes s ++ [0]))

/-- Under XCDR2 a struct carries the size of its member block in front of it. -/
def delimited (version : EncodingVersion) (body : Wire UInt8) : Wire UInt8 :=
  match version with
  | .xcdr1 => body
  | .xcdr2 => (Wire.align 0 4).andThen fun offset =>
    leBytes 4 (body (offset + 4)).length ++ body (offset + 4)

mutual

def cdrWire (version : EncodingVersion) : FieldType → Value → Wire UInt8
  | .bool, .bool b => Wire.lit [if b then 1 else 0]
  | .uint8, .u8 n => Wire.lit [n]
  | .int8, .i8 n => Wire.lit [n.toUInt8]
  | .uint16, .u16 n => cdrWord version 2 n.toNat
  | .int16, .i16 n => cdrWord version 2 n.toUInt16.toNat
  | .uint32, .u32 n => cdrWord version 4 n.toNat
  | .int32, .i32 n => cdrWord version 4 n.toUInt32.toNat
  | .uint64, .u64 n => cdrWord version 8 n.toNat
  | .int64, .i64 n => cdrWord version 8 n.toUInt64.toNat
  | .float32, .f32 x => cdrWord version 4 x.bits.toNat
  | .float64, .f64 x => cdrWord version 8 x.bits.toNat
  | .string, .str s => cdrString version s
  | .boundedString _, .str s => cdrString version s
  | .nested ⟨_, fields⟩, .struct members => delimited version (cdrWireFields version fields members)
  | .array _ inner, .array items => Wire.many (cdrWire version inner) items
  | .sequence inner, .seq items =>
    (cdrWord version 4 items.length).andThen (Wire.many (cdrWire version inner) items)
  | .boundedSequence _ inner, .seq items =>
    (cdrWord version 4 items.length).andThen (Wire.many (cdrWire version inner) items)
  | _, _ => Wire.empty

def cdrWireFields (version : EncodingVersion) : List Field → List Value → Wire UInt8
  | ⟨_, ty, _⟩ :: fields, v :: members =>
    (cdrWire version ty v).andThen (cdrWireFields version fields members)
  | _, _ => Wire.empty

end

namespace CdrWriter

/-- A writer in the middle of its buffer, storing what it writes. -/
structure Ready (w : CdrWriter) : Prop where
  origin_le : w.origin ≤ w.pos
  within : w.pos ≤ w.buf.length
  storing : w.measure = false

def offset (w : CdrWriter) : Nat := w.pos - w.origin

/-- Store the bytes of a wire that starts at the writer's offset. -/
def emit (w : CdrWriter) (wire : Wire UInt8) : Except SerError CdrWriter := w.put (wire w.offset)

/-- The writer after a successful store. -/
def after (w : CdrWriter) (bytes : List UInt8) : CdrWriter :=
  { w with buf := overwrite w.buf w.pos bytes, pos := w.pos + bytes.length }

variable (w : CdrWriter)

variable (bytes : List UInt8)

@[simp] theorem after_version :
    (w.after bytes).version = w.version := rfl

@[simp] theorem after_origin :
    (w.after bytes).origin = w.origin := rfl

@[simp] theorem after_pos :
    (w.after bytes).pos = w.pos + bytes.length := rfl

theorem put_eq_ite (ready : w.Ready) (bytes : List UInt8) :
    w.put bytes = if w.pos + bytes.length ≤ w.buf.length then .ok (w.after bytes)
      else .error .bufferTooSmall := by
  have within := ready.within
  simp only [put, remaining, ready.storing, Bool.false_eq_true, if_false, after]
  by_cases fits : w.pos + bytes.length ≤ w.buf.length
  · rw [if_pos fits, if_neg (by omega)]
  · rw [if_neg fits, if_pos (by omega)]

theorem put_eq_ok (ready : w.Ready) (bytes : List UInt8)
    (fits : w.pos + bytes.length ≤ w.buf.length) : w.put bytes = .ok (w.after bytes) := by
  rw [put_eq_ite w ready, if_pos fits]

theorem Ready.after {w : CdrWriter} (ready : w.Ready) (bytes : List UInt8)
    (fits : w.pos + bytes.length ≤ w.buf.length) : (w.after bytes).Ready where
  origin_le := Nat.le_trans ready.origin_le (Nat.le_add_right _ _)
  within := by
    simp only [CdrWriter.after]
    rw [length_overwrite _ _ _ fits]
    exact fits
  storing := ready.storing

theorem after_after (first second : List UInt8) (fits : w.pos + first.length ≤ w.buf.length) :
    (w.after first).after second = w.after (first ++ second) := by
  simp only [after, overwrite_append _ _ _ _ fits, List.length_append, Nat.add_assoc]

theorem put_put (ready : w.Ready) (first second : List UInt8) :
    (w.put first >>= fun w => w.put second) = w.put (first ++ second) := by
  by_cases fits : w.pos + first.length ≤ w.buf.length
  · rw [put_eq_ok w ready first fits, ok_bind, put_eq_ite _ (ready.after first fits),
      put_eq_ite w ready, after_after w first second fits]
    simp only [after, length_overwrite _ _ _ fits, List.length_append, Nat.add_assoc]
  · rw [put_eq_ite w ready first, if_neg fits, error_bind, put_eq_ite w ready,
      if_neg (by simp only [List.length_append]; omega)]

theorem emit_emit (ready : w.Ready) (first second : Wire UInt8) :
    (w.emit first >>= fun w => w.emit second) = w.emit (first.andThen second) := by
  have order := ready.origin_le
  by_cases fits : w.pos + (first w.offset).length ≤ w.buf.length
  · have next : (w.after (first w.offset)).offset = w.offset + (first w.offset).length := by
      simp only [offset, after_pos, after_origin]
      omega
    simp only [emit, Wire.andThen]
    rw [← put_put w ready, put_eq_ok w ready _ fits, ok_bind, ok_bind, next]
  · simp only [emit]
    rw [put_eq_ite w ready, if_neg fits, error_bind, put_eq_ite w ready,
      if_neg (by simp only [Wire.andThen, List.length_append]; omega)]

theorem emit_empty (ready : w.Ready) : w.emit Wire.empty = .ok w := by
  have within := ready.within
  rw [emit, put_eq_ok w ready _ (by simpa [Wire.empty] using within)]
  simp [after, Wire.empty, overwrite_nil]

theorem emit_eq_ok {w w' : CdrWriter} (ready : w.Ready) {wire : Wire UInt8}
    (done : w.emit wire = .ok w') :
    w' = w.after (wire w.offset) ∧ w.pos + (wire w.offset).length ≤ w.buf.length ∧ w'.Ready := by
  rw [emit, put_eq_ite w ready] at done
  by_cases fits : w.pos + (wire w.offset).length ≤ w.buf.length
  · rw [if_pos fits] at done
    cases done
    exact ⟨rfl, fits, ready.after _ fits⟩
  · rw [if_neg fits] at done
    cases done

theorem align_eq_emit (alignment : Nat) :
    w.align alignment = w.emit (Wire.align 0 (alignCap w.version alignment)) := rfl

theorem writeWord_eq_emit (ready : w.Ready) (width value : Nat) :
    writeWord width w value = w.emit (cdrWord w.version width value) := by
  rw [cdrWord, ← emit_emit w ready]
  rfl

theorem writeString_eq_emit (ready : w.Ready) (s : String)
    (fits : (asBytes s).length + 1 ≤ u32Max) :
    w.writeString s = w.emit (cdrString w.version s) := by
  have tail (w : CdrWriter) (ready : w.Ready) :
      (w.writeBytes (asBytes s) >>= fun w => w.writeU8 0) = w.emit (Wire.lit (asBytes s ++ [0])) :=
    put_put w ready _ _
  simp only [writeString, if_neg (Nat.not_lt.mpr fits)]
  rw [writeU32, toNat_ofNat_u32 _ fits, writeWord_eq_emit w ready, cdrString, ← emit_emit w ready]
  cases done : w.emit (cdrWord w.version 4 ((asBytes s).length + 1)) with
  | error e => rfl
  | ok next => exact tail next (emit_eq_ok ready done).2.2

theorem writeSequenceLen_eq_emit (ready : w.Ready) (len : Nat) (fits : len ≤ u32Max)
    : w.writeSequenceLen len = w.emit (cdrWord w.version 4 len) := by
  simp only [writeSequenceLen, if_neg (Nat.not_lt.mpr fits)]
  rw [writeU32, toNat_ofNat_u32 _ fits, writeWord_eq_emit w ready]

theorem writeString_fits {w w' : CdrWriter} {s : String} (done : w.writeString s = .ok w') :
    (asBytes s).length + 1 ≤ u32Max := by
  by_contra long
  simp only [writeString, if_pos (Nat.not_le.mp long)] at done
  cases done

theorem writeSequenceLen_fits {w w' : CdrWriter} {len : Nat}
    (done : w.writeSequenceLen len = .ok w') : len ≤ u32Max := by
  by_contra long
  simp only [writeSequenceLen, if_pos (Nat.not_le.mp long)] at done
  cases done

theorem beginDheader_xcdr2 (ready : w.Ready) (kind : w.version = .xcdr2) :
    w.beginDheader =
      (fun next => (some (w.pos + (Wire.align (0 : UInt8) 4 w.offset).length), next)) <$>
        w.put (Wire.align 0 4 w.offset ++ [0, 0, 0, 0]) := by
  have first : w.align 4 = w.put (Wire.align 0 4 w.offset) := by
    rw [align_eq_emit, kind]
    rfl
  simp only [beginDheader, kind, first]
  rw [← put_put w ready]
  cases done : w.put (Wire.align 0 4 w.offset) with
  | error e => rfl
  | ok next =>
    have moved := (@emit_eq_ok w next ready (Wire.align 0 4) done).1
    have place : next.pos = w.pos + (Wire.align (0 : UInt8) 4 w.offset).length := by rw [moved]; rfl
    simp only [ok_bind, pure_eq_ok, place]
    cases next.put [0, 0, 0, 0] <;> rfl

theorem beginDheader_ready {w opened : CdrWriter} {mark : Option Nat} (ready : w.Ready)
    (begun : w.beginDheader = .ok (mark, opened)) :
    opened.Ready ∧ opened.version = w.version := by
  cases kind : w.version with
  | xcdr1 =>
    simp only [beginDheader, kind] at begun
    cases begun
    exact ⟨ready, kind⟩
  | xcdr2 =>
    rw [beginDheader_xcdr2 w ready kind, put_eq_ite w ready] at begun
    split at begun
    case isTrue fits =>
      cases begun
      exact ⟨ready.after _ fits, kind⟩
    case isFalse => cases begun

theorem endDheader_after (ready : w.Ready) (front block : List UInt8)
    (fits : w.pos + (front ++ [0, 0, 0, 0] ++ block).length ≤ w.buf.length) :
    (w.after (front ++ [0, 0, 0, 0] ++ block)).endDheader (some (w.pos + front.length)) =
      .ok (w.after (front ++ leBytes 4 block.length ++ block)) := by
  have size : w.pos + (front ++ [0, 0, 0, 0] ++ block).length - (w.pos + front.length + 4) =
      block.length := by
    simp only [List.length_append, List.length_cons, List.length_nil]
    omega
  have same : (front ++ [0, 0, 0, 0] ++ block).length =
      (front ++ leBytes 4 block.length ++ block).length := by
    simp only [List.length_append, length_leBytes, List.length_cons, List.length_nil]
  have patched := overwrite_patch w.buf w.pos front [0, 0, 0, 0] (leBytes 4 block.length)
    block (by simp) fits
  simp only [endDheader, after, size, ready.storing, Bool.false_eq_true, if_false, patched]
  rw [same]

/-- The bracket around a struct: whatever emits the members between `begin_dheader` and
`end_dheader`, the whole is one emission of the delimited wire. -/
theorem dheader_bracket (ready : w.Ready) (body : Wire UInt8)
    (members : CdrWriter → Except SerError CdrWriter)
    (spec : ∀ next : CdrWriter, next.Ready → next.version = w.version →
      members next = next.emit body) :
    (w.beginDheader >>= fun opened => members opened.2 >>= fun w => w.endDheader opened.1) =
      w.emit (delimited w.version body) := by
  cases kind : w.version with
  | xcdr1 =>
    simp only [beginDheader, kind, ok_bind, delimited]
    rw [spec w ready rfl]
    cases w.emit body <;> rfl
  | xcdr2 =>
    let front := Wire.align (0 : UInt8) 4 w.offset
    let block := body (w.offset + front.length + 4)
    have target : delimited .xcdr2 body w.offset = front ++ leBytes 4 block.length ++ block := by
      simp only [delimited, Wire.andThen, List.append_assoc]
      rfl
    have same : (front ++ leBytes 4 block.length ++ block).length =
        (front ++ [0, 0, 0, 0] ++ block).length := by
      simp only [List.length_append, length_leBytes, List.length_cons, List.length_nil]
    rw [beginDheader_xcdr2 w ready kind, map_bind_eq, emit, target,
      put_eq_ite w ready (front ++ leBytes 4 block.length ++ block), same]
    by_cases opens : w.pos + (front ++ [0, 0, 0, 0]).length ≤ w.buf.length
    · let opened := w.after (front ++ [0, 0, 0, 0])
      have place : opened.offset = w.offset + front.length + 4 := by
        have order := ready.origin_le
        simp only [opened, offset, after_pos, after_origin, List.length_append, List.length_cons,
          List.length_nil]
        omega
      have whole : opened.put block = if w.pos + (front ++ [0, 0, 0, 0] ++ block).length ≤
          w.buf.length then .ok (w.after (front ++ [0, 0, 0, 0] ++ block))
          else .error .bufferTooSmall := by
        rw [← put_eq_ite w ready, ← put_put w ready, put_eq_ok w ready _ opens, ok_bind]
      rw [put_eq_ok w ready _ opens, ok_bind, spec opened (ready.after _ opens) rfl, emit, place]
      change (opened.put block >>= _) = _
      rw [whole]
      by_cases fits : w.pos + (front ++ [0, 0, 0, 0] ++ block).length ≤ w.buf.length
      · rw [if_pos fits, if_pos fits, ok_bind]
        exact endDheader_after w ready front block fits
      · rw [if_neg fits, if_neg fits, error_bind]
    · have full : ¬ w.pos + (front ++ [0, 0, 0, 0] ++ block).length ≤ w.buf.length := by
        simp only [List.length_append] at opens ⊢
        omega
      rw [put_eq_ite w ready, if_neg opens, error_bind, if_neg full]

end CdrWriter

namespace CdrReader

structure Ready (r : CdrReader) : Prop where
  origin_le : r.origin ≤ r.pos
  within : r.pos ≤ r.buf.length

def offset (r : CdrReader) : Nat := r.pos - r.origin

/-- The bytes ahead of the reader start with the wire. -/
def Holds (r : CdrReader) (wire : Wire UInt8) : Prop := wire r.offset <+: r.buf.drop r.pos

def skip (r : CdrReader) (wire : Wire UInt8) : CdrReader :=
  { r with pos := r.pos + (wire r.offset).length }

variable (r : CdrReader)

@[simp] theorem skip_version (wire : Wire UInt8) :
    (r.skip wire).version = r.version := rfl

theorem offset_skip (ready : r.Ready) (wire : Wire UInt8) :
    (r.skip wire).offset = wire.stop r.offset := by
  have order := ready.origin_le
  simp only [offset, skip, Wire.stop]
  omega

theorem Holds.length_le {r : CdrReader} {wire : Wire UInt8} (holds : r.Holds wire)
    (ready : r.Ready) : r.pos + (wire r.offset).length ≤ r.buf.length :=
  length_of_isPrefix_drop _ _ _ holds ready.within

theorem Ready.skip {r : CdrReader} (ready : r.Ready) {wire : Wire UInt8} (holds : r.Holds wire) :
    (r.skip wire).Ready where
  origin_le := Nat.le_trans ready.origin_le (Nat.le_add_right _ _)
  within := holds.length_le ready

section

variable (ready : r.Ready)
include ready

theorem holds_andThen (first second : Wire UInt8) :
    r.Holds (first.andThen second) ↔ r.Holds first ∧ (r.skip first).Holds second := by
  simp only [Holds, offset_skip r ready]
  exact append_isPrefix_drop _ _ _ _

theorem skip_andThen (first second : Wire UInt8) :
    (r.skip first).skip second = r.skip (first.andThen second) := by
  have next := offset_skip r ready first
  simp only [skip] at next ⊢
  rw [next]
  simp only [Wire.andThen, Wire.stop, List.length_append, Nat.add_assoc]

theorem align_of_holds (alignment : Nat)
    (holds : r.Holds (Wire.align 0 (alignCap r.version alignment))) :
    r.align alignment = .ok (r.skip (Wire.align 0 (alignCap r.version alignment))) := by
  have room := holds.length_le ready
  simp only [Wire.align, List.length_replicate] at room
  simp only [align, remaining, skip, Wire.align, List.length_replicate]
  exact if_neg (by simp only [offset] at room; omega)

theorem readU8_of_holds (byte : UInt8) (holds : r.Holds (Wire.lit [byte]))
    : r.readU8 = .ok (byte, r.skip (Wire.lit [byte])) := by
  have room : r.pos + 1 ≤ r.buf.length := holds.length_le ready
  obtain ⟨rest, split⟩ := holds
  have found : r.buf.getD r.pos 0 = byte := by
    have head : (r.buf.drop r.pos)[0]? = some byte := by rw [← split]; rfl
    rw [List.getElem?_drop, Nat.add_zero] at head
    rw [List.getD_eq_getElem?_getD, head, Option.getD_some]
  simp only [readU8, remaining, if_neg (show ¬ r.buf.length - r.pos < 1 by omega), found]
  rfl

theorem readWord_of_holds (width value : Nat) (holds : r.Holds (cdrWord r.version width value)) :
    readWord width r = .ok (value % 256 ^ width, r.skip (cdrWord r.version width value)) := by
  obtain ⟨padded, number⟩ := (holds_andThen r ready _ _).mp holds
  have aligned := ready.skip padded
  have room := number.length_le aligned
  simp only [Wire.lit, length_leBytes] at room
  have found := slice_of_isPrefix_drop _ _ _ number
  simp only [Wire.lit, length_leBytes] at found
  have enough : ¬ (r.skip (Wire.align 0 (alignCap r.version width))).remaining < width := by
    simp only [remaining]
    omega
  rw [readWord, align_of_holds r ready width padded]
  simp only [ok_bind, pure_eq_ok, if_neg enough]
  rw [found, leNat_leBytes, cdrWord, ← skip_andThen r ready]
  simp only [skip, Wire.lit, length_leBytes]

theorem readU16_of_holds (value : UInt16) (holds : r.Holds (cdrWord r.version 2 value.toNat)) :
    r.readU16 = .ok (value, r.skip (cdrWord r.version 2 value.toNat)) := by
  have small : value.toNat % 256 ^ 2 = value.toNat := Nat.mod_eq_of_lt value.toNat_lt
  rw [readU16, readWord_of_holds r ready 2 _ holds, small]
  simp

theorem readCast_of_holds (value : Nat) (holds : r.Holds (cdrWord r.version 4 value)) :
    r.readU32 = .ok (UInt32.ofNat (value % 2 ^ 32), r.skip (cdrWord r.version 4 value)) := by
  rw [readU32, readWord_of_holds r ready 4 _ holds]
  rfl

theorem readU32_of_holds (value : UInt32) (holds : r.Holds (cdrWord r.version 4 value.toNat)) :
    r.readU32 = .ok (value, r.skip (cdrWord r.version 4 value.toNat)) := by
  have small : value.toNat % 2 ^ 32 = value.toNat := Nat.mod_eq_of_lt value.toNat_lt
  rw [readCast_of_holds r ready _ holds, small]
  simp

theorem readU64_of_holds (value : UInt64) (holds : r.Holds (cdrWord r.version 8 value.toNat)) :
    r.readU64 = .ok (value, r.skip (cdrWord r.version 8 value.toNat)) := by
  have small : value.toNat % 256 ^ 8 = value.toNat := Nat.mod_eq_of_lt value.toNat_lt
  rw [readU64, readWord_of_holds r ready 8 _ holds, small]
  simp

theorem readLength_of_holds (len : Nat) (fits : len ≤ u32Max)
    (holds : r.Holds (cdrWord r.version 4 len)) :
    r.readU32 = .ok (UInt32.ofNat len, r.skip (cdrWord r.version 4 len)) := by
  have same := toNat_ofNat_u32 len fits
  rw [← same] at holds
  rw [readU32_of_holds r ready _ holds, same]

theorem readSequenceLen_of_holds (len : Nat) (fits : len ≤ u32Max)
    (holds : r.Holds (cdrWord r.version 4 len)) :
    r.readSequenceLen = .ok (len, r.skip (cdrWord r.version 4 len)) := by
  rw [readSequenceLen, readLength_of_holds r ready len fits holds]
  simp only [ok_bind, pure_eq_ok, toNat_ofNat_u32 len fits]

theorem readString_of_holds (s : String) (fits : (asBytes s).length + 1 ≤ u32Max)
    (holds : r.Holds (cdrString r.version s)) :
    r.readString = .ok (s, r.skip (cdrString r.version s)) := by
  obtain ⟨counted, text⟩ := (holds_andThen r ready _ _).mp holds
  have behind := ready.skip counted
  have room := text.length_le behind
  simp only [Wire.lit, List.length_append, List.length_singleton] at room
  have payload := ((append_isPrefix_drop _ _ _ _).mp text).1
  have found := slice_of_isPrefix_drop _ _ _ payload
  rw [readString, readLength_of_holds r ready _ fits counted]
  simp only [ok_bind, toNat_ofNat_u32 _ fits, Nat.add_sub_cancel, pure_eq_ok]
  rw [if_neg (Nat.succ_ne_zero _), if_neg (by simp only [remaining]; omega), found,
    fromUtf8_asBytes]
  simp only [cdrString]
  rw [← skip_andThen r ready]
  simp only [skip, Wire.lit, List.length_append, List.length_singleton]

end

end CdrReader

end NanoRos
