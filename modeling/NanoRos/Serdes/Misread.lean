import NanoRos.Serdes.Alignment

/-! When a reader does not follow: every type without wide strings has a sample value whose members
all show where they lie, and a reader that is lost misreads it. -/

namespace NanoRos

open LittleEndian Memory

mutual

def plainType : FieldType → Bool
  | .wString | .boundedWString _ => false
  | .nested ⟨_, fields⟩ => plainFields fields
  | .array _ inner | .sequence inner | .boundedSequence _ inner => plainType inner
  | _ => true

def plainFields : List Field → Bool
  | [] => true
  | ⟨_, ty, _⟩ :: fields => plainType ty && plainFields fields

end

mutual

/-- Numbers that are not zero, sequences that are not empty. -/
def sample (flag : Bool) : FieldType → Value
  | .bool => .bool flag
  | .uint8 => .u8 2
  | .int8 => .i8 2
  | .uint16 => .u16 2
  | .int16 => .i16 2
  | .uint32 => .u32 2
  | .int32 => .i32 2
  | .uint64 => .u64 2
  | .int64 => .i64 2
  | .float32 => .f32 ⟨2⟩
  | .float64 => .f64 ⟨2⟩
  | .string | .wString | .boundedString _ | .boundedWString _ => .str ""
  | .nested ⟨_, fields⟩ => .struct (sampleFields flag fields)
  | .array n inner => .array (List.replicate n (sample flag inner))
  | .sequence inner => .seq [sample flag inner]
  | .boundedSequence cap inner => .seq (if cap = 0 then [] else [sample flag inner])

def sampleFields (flag : Bool) : List Field → List Value
  | [] => []
  | ⟨_, ty, _⟩ :: fields => sample flag ty :: sampleFields flag fields

end

section Sample

variable (flag : Bool)

mutual

theorem conforms_sample : ∀ ty : FieldType, plainType ty = true → Conforms ty (sample flag ty)
  | .bool, _ | .uint8, _ | .int8, _ | .uint16, _ | .int16, _ | .uint32, _ | .int32, _ | .uint64, _
  | .int64, _ | .float32, _ | .float64, _ | .string, _ => ⟨_, rfl⟩
  | .boundedString n, _ => ⟨_, rfl, Nat.zero_le n⟩
  | .wString, plain | .boundedWString _, plain => by cases plain
  | .nested ⟨_, fields⟩, plain => ⟨_, rfl, conformsFields_sample fields plain⟩
  | .array n inner, plain => by
    refine ⟨_, rfl, List.length_replicate, ?_⟩
    intro item member
    rw [List.eq_of_mem_replicate member]
    exact conforms_sample inner plain
  | .sequence inner, plain => by
    refine ⟨_, rfl, ?_⟩
    intro item member
    rw [List.mem_singleton.mp member]
    exact conforms_sample inner plain
  | .boundedSequence cap inner, plain => by
    refine ⟨_, rfl, ?_⟩
    split
    case isTrue =>
      refine ⟨Nat.zero_le cap, ?_⟩
      intro item member
      cases member
    case isFalse positive =>
      refine ⟨Nat.one_le_iff_ne_zero.mpr positive, ?_⟩
      intro item member
      rw [List.mem_singleton.mp member]
      exact conforms_sample inner plain

theorem conformsFields_sample : ∀ fields : List Field, plainFields fields = true →
    ConformsFields fields (sampleFields flag fields)
  | [], _ => rfl
  | ⟨_, ty, _⟩ :: fields, plain => by
    rw [plainFields, Bool.and_eq_true] at plain
    exact ⟨_, _, rfl, conforms_sample ty plain.1, conformsFields_sample fields plain.2⟩

end

mutual

theorem lengthsFit_sample : ∀ ty : FieldType, LengthsFit ty (sample flag ty)
  | .bool | .uint8 | .int8 | .uint16 | .int16 | .uint32 | .int32 | .uint64 | .int64 | .float32
  | .float64 | .wString | .boundedWString _ => trivial
  | .string | .boundedString _ => by
    rw [sample, LengthsFit]
    decide
  | .nested ⟨_, fields⟩ => lengthsFitFields_sample fields
  | .array n inner => by
    intro item member
    rw [List.eq_of_mem_replicate member]
    exact lengthsFit_sample inner
  | .sequence inner => by
    refine ⟨by rw [List.length_singleton]; decide, ?_⟩
    intro item member
    rw [List.mem_singleton.mp member]
    exact lengthsFit_sample inner
  | .boundedSequence cap inner => by
    rw [sample, LengthsFit]
    split
    · refine ⟨by decide, ?_⟩
      intro item member
      cases member
    · refine ⟨by rw [List.length_singleton]; decide, ?_⟩
      intro item member
      rw [List.mem_singleton.mp member]
      exact lengthsFit_sample inner

theorem lengthsFitFields_sample : ∀ fields : List Field,
    LengthsFitFields fields (sampleFields flag fields)
  | [] => trivial
  | ⟨_, ty, _⟩ :: fields => ⟨lengthsFit_sample ty, lengthsFitFields_sample fields⟩

end

end Sample

/-- The byte a reader looks at first for a member aligned to `width`, zero behind the end. -/
def firstByte (r : CdrReader) (width : Nat) : UInt8 := r.buf.getD (r.pos + padding width r.offset) 0

theorem leNat_slice_low (buf : List UInt8) {pos width : Nat} (positive : 0 < width)
    (inside : pos < buf.length) : leNat (slice buf pos width) % 256 = (buf.getD pos 0).toNat := by
  rcases Nat.exists_eq_succ_of_ne_zero (Nat.ne_of_gt positive) with ⟨k, rfl⟩
  rw [slice, List.drop_eq_getElem_cons inside, List.take_succ_cons, leNat,
    List.getD_eq_getElem?_getD, List.getElem?_eq_getElem inside, Nat.add_mul_mod_self_left]
  exact Nat.mod_eq_of_lt (UInt8.toNat_lt _)

theorem readWord_low {width n : Nat} {r out : CdrReader} (positive : 0 < width)
    (plain : r.version = .xcdr1) (done : CdrReader.readWord width r = .ok (n, out)) :
    n % 256 = (firstByte r width).toNat := by
  rw [CdrReader.readWord] at done
  rcases bind_eq_ok.mp done with ⟨aligned, moved, rest⟩
  rw [CdrReader.align, plain] at moved
  split at moved
  case isTrue => cases moved
  case isFalse =>
    cases moved
    split at rest
    case isTrue => cases rest
    case isFalse enough =>
      cases rest
      rw [CdrReader.remaining] at enough
      dsimp only at enough
      have inside : r.pos + padding (alignCap .xcdr1 width) (r.pos - r.origin) < r.buf.length := by
        omega
      exact leNat_slice_low r.buf positive inside

theorem length_deserializeItems {cap : Option Nat}
    {item : CdrReader → Except DeserError (Value × CdrReader)} {n : Nat} {vec items : List Value}
    {r out : CdrReader} (done : deserializeItems cap item n vec r = .ok (items, out)) :
    ∃ rest, items = vec ++ rest ∧ rest.length = n := by
  induction n generalizing vec r with
  | zero =>
    cases done
    exact ⟨[], (List.append_nil _).symm, rfl⟩
  | succ n ih =>
    rw [deserializeItems] at done
    rcases bind_eq_ok.mp done with ⟨⟨v, r'⟩, _, rest⟩
    dsimp only at rest
    split at rest
    case isTrue => cases rest
    case isFalse =>
      rcases ih rest with ⟨others, rfl, length⟩
      exact ⟨v :: others, by rw [List.append_assoc]; rfl, by rw [List.length_cons, length]⟩

/-- The alignment of a type that starts with a number or a length; a sequence that cannot have
elements does not count. -/
def leadWidth : FieldType → Option Nat
  | .bool | .uint8 | .int8 => some 1
  | .uint16 | .int16 => some 2
  | .uint32 | .int32 | .float32 | .string | .boundedString _ | .sequence _ => some 4
  | .uint64 | .int64 | .float64 => some 8
  | .boundedSequence cap _ => if cap = 0 then none else some 4
  | _ => none

theorem asBytes_of_fromUtf8 {bytes : List UInt8} {s : String} (decoded : fromUtf8 bytes = some s) :
    asBytes s = bytes := by
  rw [fromUtf8, String.fromUTF8?] at decoded
  split at decoded
  case isTrue =>
    cases decoded
    rfl
  case isFalse => cases decoded

section Zero

variable {r out : CdrReader} (plain : r.version = .xcdr1)

include plain

theorem readU16_low {v : UInt16} (done : r.readU16 = .ok (v, out)) :
    v.toNat % 256 = (firstByte r 2).toNat := by
  rcases bind_eq_ok.mp done with ⟨⟨n, r'⟩, word, cast⟩
  cases cast
  have low := readWord_low (by decide) plain word
  rw [← low, UInt16.toNat_ofNat']
  omega

theorem readU32_low {v : UInt32} (done : r.readU32 = .ok (v, out)) :
    v.toNat % 256 = (firstByte r 4).toNat := by
  rcases bind_eq_ok.mp done with ⟨⟨n, r'⟩, word, cast⟩
  cases cast
  have low := readWord_low (by decide) plain word
  rw [← low, UInt32.toNat_ofNat']
  omega

theorem readU64_low {v : UInt64} (done : r.readU64 = .ok (v, out)) :
    v.toNat % 256 = (firstByte r 8).toNat := by
  rcases bind_eq_ok.mp done with ⟨⟨n, r'⟩, word, cast⟩
  cases cast
  have low := readWord_low (by decide) plain word
  rw [← low, UInt64.toNat_ofNat']
  omega

theorem readI16_low {v : Int16} (done : r.readI16 = .ok (v, out)) :
    v.toUInt16.toNat % 256 = (firstByte r 2).toNat := by
  rcases bind_eq_ok.mp done with ⟨⟨u, r'⟩, first, cast⟩
  cases cast
  rw [UInt16.toUInt16_toInt16]
  exact readU16_low plain first

theorem readI32_low {v : Int32} (done : r.readI32 = .ok (v, out)) :
    v.toUInt32.toNat % 256 = (firstByte r 4).toNat := by
  rcases bind_eq_ok.mp done with ⟨⟨u, r'⟩, first, cast⟩
  cases cast
  rw [UInt32.toUInt32_toInt32]
  exact readU32_low plain first

theorem readI64_low {v : Int64} (done : r.readI64 = .ok (v, out)) :
    v.toUInt64.toNat % 256 = (firstByte r 8).toNat := by
  rcases bind_eq_ok.mp done with ⟨⟨u, r'⟩, first, cast⟩
  cases cast
  rw [UInt64.toUInt64_toInt64]
  exact readU64_low plain first

theorem readF32_low {v : F32} (done : r.readF32 = .ok (v, out)) :
    v.bits.toNat % 256 = (firstByte r 4).toNat := by
  rcases bind_eq_ok.mp done with ⟨⟨u, r'⟩, first, cast⟩
  cases cast
  exact readU32_low plain first

theorem readF64_low {v : F64} (done : r.readF64 = .ok (v, out)) :
    v.bits.toNat % 256 = (firstByte r 8).toNat := by
  rcases bind_eq_ok.mp done with ⟨⟨u, r'⟩, first, cast⟩
  cases cast
  exact readU64_low plain first

omit plain in
theorem readU8_first {v : UInt8} (done : r.readU8 = .ok (v, out)) : v = firstByte r 1 := by
  rw [CdrReader.readU8] at done
  split at done
  case isTrue => cases done
  case isFalse =>
    cases done
    rw [firstByte, padding, Nat.mod_one, Nat.add_zero]

theorem readString_zero {s : String} (zero : firstByte r 4 = 0)
    (done : r.readString = .ok (s, out)) : s ≠ "" := by
  rw [CdrReader.readString] at done
  rcases bind_eq_ok.mp done with ⟨⟨len, r'⟩, counted, rest⟩
  have low := readU32_low plain counted
  rw [zero] at low
  change _ % 256 = 0 at low
  dsimp only at rest
  split at rest
  case isTrue => cases rest
  case isFalse some =>
    split at rest
    case isTrue => cases rest
    case isFalse enough =>
      split at rest
      case h_2 => cases rest
      case h_1 text decoded =>
        cases rest
        rintro rfl
        have bytes := congrArg List.length (asBytes_of_fromUtf8 decoded)
        rw [CdrReader.remaining] at enough
        rw [length_slice _ _ _ (by omega)] at bytes
        change 0 = _ at bytes
        omega

theorem readSequence_zero {cap : Option Nat} {item : CdrReader → Except DeserError (Value × CdrReader)}
    {items : List Value} (zero : firstByte r 4 = 0)
    (done : (r.readU32 >>= fun read => deserializeItems cap item read.1.toNat [] read.2 >>= fun read =>
      pure (Value.seq read.1, read.2)) = .ok (.seq items, out)) : items.length % 256 = 0 := by
  rcases bind_eq_ok.mp done with ⟨⟨len, r'⟩, counted, rest⟩
  rcases bind_eq_ok.mp rest with ⟨⟨elements, r''⟩, looped, last⟩
  cases last
  rcases length_deserializeItems looped with ⟨rest, whole, length⟩
  have low := readU32_low plain counted
  rw [zero] at low
  dsimp only at whole length ⊢
  rw [whole, List.nil_append, length]
  exact low

omit plain in
theorem readAs_ne {α : Type} {into : α → Value} (inj : ∀ a b, into a = into b → a = b)
    {read : CdrReader → Except DeserError (α × CdrReader)} {wanted : α}
    (never : ∀ v out, read r = .ok (v, out) → v ≠ wanted) :
    readAs into read r ≠ .ok (into wanted, out) := by
  intro done
  rcases bind_eq_ok.mp done with ⟨⟨v, r'⟩, first, cast⟩
  simp only [pure_eq_ok, Except.ok.injEq, Prod.mk.injEq] at cast
  exact never v r' first (inj _ _ cast.1)

theorem words_of_zero {ty : FieldType} (wide : ty = .uint16 ∨ ty = .int16 ∨ ty = .uint32 ∨
    ty = .int32 ∨ ty = .float32 ∨ ty = .uint64 ∨ ty = .int64 ∨ ty = .float64) {width : Nat}
    (led : leadWidth ty = some width) (zero : firstByte r width = 0) :
    deserialize ty r ≠ .ok (sample true ty, out) := by
  rcases wide with rfl | rfl | rfl | rfl | rfl | rfl | rfl | rfl
  all_goals cases led
  · refine readAs_ne (fun _ _ => Value.u16.inj) ?_
    rintro v out read rfl
    exact absurd (readU16_low plain read) (by rw [zero]; decide)
  · refine readAs_ne (fun _ _ => Value.i16.inj) ?_
    rintro v out read rfl
    exact absurd (readI16_low plain read) (by rw [zero]; decide)
  · refine readAs_ne (fun _ _ => Value.u32.inj) ?_
    rintro v out read rfl
    exact absurd (readU32_low plain read) (by rw [zero]; decide)
  · refine readAs_ne (fun _ _ => Value.i32.inj) ?_
    rintro v out read rfl
    exact absurd (readI32_low plain read) (by rw [zero]; decide)
  · refine readAs_ne (fun _ _ => Value.f32.inj) ?_
    rintro v out read rfl
    exact absurd (readF32_low plain read) (by rw [zero]; decide)
  · refine readAs_ne (fun _ _ => Value.u64.inj) ?_
    rintro v out read rfl
    exact absurd (readU64_low plain read) (by rw [zero]; decide)
  · refine readAs_ne (fun _ _ => Value.i64.inj) ?_
    rintro v out read rfl
    exact absurd (readI64_low plain read) (by rw [zero]; decide)
  · refine readAs_ne (fun _ _ => Value.f64.inj) ?_
    rintro v out read rfl
    exact absurd (readF64_low plain read) (by rw [zero]; decide)

theorem misreads_of_zero {ty : FieldType} {width : Nat} (led : leadWidth ty = some width)
    (zero : firstByte r width = 0) : deserialize ty r ≠ .ok (sample true ty, out) := by
  cases ty with
  | bool =>
    cases led
    refine readAs_ne (fun _ _ => Value.bool.inj) ?_
    rintro v out read rfl
    rcases bind_eq_ok.mp read with ⟨⟨byte, r'⟩, first, cast⟩
    have found := readU8_first first
    rw [zero] at found
    subst found
    cases cast
  | uint8 =>
    cases led
    refine readAs_ne (fun _ _ => Value.u8.inj) ?_
    rintro v out read rfl
    have found := readU8_first read
    rw [zero] at found
    cases found
  | int8 =>
    cases led
    refine readAs_ne (fun _ _ => Value.i8.inj) ?_
    rintro v out read rfl
    rcases bind_eq_ok.mp read with ⟨⟨byte, r'⟩, first, cast⟩
    have found := readU8_first first
    rw [zero] at found
    subst found
    cases cast
  | uint16 | int16 | uint32 | int32 | float32 | uint64 | int64 | float64 =>
    exact words_of_zero plain (by simp) led zero
  | string =>
    cases led
    refine readAs_ne (fun _ _ => Value.str.inj) ?_
    intro v out read
    exact readString_zero plain zero read
  | boundedString n =>
    cases led
    intro done
    rcases bind_eq_ok.mp done with ⟨⟨text, r'⟩, read, rest⟩
    dsimp only at rest
    split at rest
    case isTrue => cases rest
    case isFalse =>
      rw [pure_eq_ok, Except.ok.injEq, Prod.mk.injEq] at rest
      exact readString_zero plain zero read (Value.str.inj rest.1)
  | sequence inner =>
    cases led
    intro done
    have length := readSequence_zero plain zero done
    cases length
  | boundedSequence cap inner =>
    rw [leadWidth] at led
    split at led
    case isTrue => cases led
    case isFalse positive =>
      cases led
      intro done
      have length := readSequence_zero plain zero done
      rw [if_neg positive] at length
      cases length
  | nested | array | wString | boundedWString => cases led

end Zero

/-- A reader at a place where the writer was `x` bytes along when it wrote `wire`. -/
structure Behind (r : CdrReader) (s : Sync) (x : Nat) (wire : Wire UInt8) : Prop where
  ready : r.Ready
  plain : r.version = .xcdr1
  between : s.Between x r.offset
  ahead : zeros (x + 4 - r.offset) ++ wire x <+: r.buf.drop r.pos

namespace Behind

variable {r : CdrReader} {s s' : Sync} {x : Nat} {wire first second : Wire UInt8}

theorem holds (behind : Behind r s x wire) (follows : Follows s s' wire) : r.Holds wire := by
  have ahead := behind.ahead
  rw [← (follows x r.offset behind.between).2] at ahead
  exact (List.prefix_append _ _).trans ahead

theorem front (behind : Behind r s x (first.andThen second)) : Behind r s x first := by
  have ahead := behind.ahead
  rw [Wire.andThen, ← List.append_assoc] at ahead
  exact ⟨behind.ready, behind.plain, behind.between, (List.prefix_append _ _).trans ahead⟩

theorem skip (behind : Behind r s x (first.andThen second)) (follows : Follows s s' first) :
    Behind (r.skip first) s' (first.stop x) second := by
  rcases follows x r.offset behind.between with ⟨between', same⟩
  have ahead := behind.ahead
  rw [Wire.andThen, ← List.append_assoc, ← same, List.append_assoc] at ahead
  have parts := (append_isPrefix_drop _ _ _ _).mp ahead
  have offset := r.offset_skip behind.ready first
  refine ⟨behind.ready.skip (behind.front.holds follows), behind.plain, ?_, ?_⟩
  · rw [offset]
    exact between'
  · rw [offset]
    exact parts.2

theorem firstByte_of_lt (behind : Behind r s x wire) {width : Nat} {data : List UInt8}
    (bytes : wire x = zeros (padding width x) ++ data)
    (early : padding width r.offset < x + 4 - r.offset + padding width x) :
    firstByte r width = 0 := by
  have ahead := behind.ahead
  rw [bytes, ← List.append_assoc] at ahead
  have front := (List.prefix_append _ _).trans ahead
  have joined : zeros (x + 4 - r.offset) ++ zeros (padding width x) =
      zeros (x + 4 - r.offset + padding width x) := List.replicate_append_replicate
  rw [joined] at front
  rw [firstByte, getD_of_isPrefix_drop _ _ _ 0 front (by rwa [zeros, List.length_replicate]),
    List.getD_eq_getElem?_getD, zeros, List.getElem?_replicate, if_pos early]
  rfl

theorem firstByte_wide (behind : Behind r s x wire)
    (bytes : wire x = zeros (padding 8 x) ++ leBytes 8 2) : firstByte r 8 = 0 := by
  have order := behind.between.le
  have mine := dvd_add_padding 8 r.offset (by decide)
  have other := dvd_add_padding 8 x (by decide)
  have short := padding_lt 8 r.offset (by decide)
  by_cases early : padding 8 r.offset < x + 4 - r.offset + padding 8 x
  · exact behind.firstByte_of_lt bytes early
  · have ahead := behind.ahead
    rw [bytes, ← List.append_assoc] at ahead
    have joined : zeros (x + 4 - r.offset) ++ zeros (padding 8 x) =
        zeros (x + 4 - r.offset + padding 8 x) := List.replicate_append_replicate
    rw [joined] at ahead
    generalize gap : x + 4 - r.offset + padding 8 x = n at *
    have apart : padding 8 r.offset ≠ n := by omega
    have whole : (zeros n ++ leBytes 8 2).length = n + 8 := by
      rw [List.length_append, zeros, List.length_replicate]
      rfl
    have upper : ∀ i < 8, 0 < i → (leBytes 8 2).getD i 0 = 0 := by decide
    rw [firstByte, getD_of_isPrefix_drop _ _ _ 0 ahead (by omega), List.getD_eq_getElem?_getD,
      List.getElem?_append_right (by rw [zeros, List.length_replicate]; omega), zeros,
      List.length_replicate, ← List.getD_eq_getElem?_getD]
    exact upper _ (by omega) (by omega)

/-- Where the type loses the reader, it looks at a zero: one of those in front of the member, or
one of the upper bytes of the sample. -/
theorem firstByte_zero (behind : Behind r s x wire) {width : Nat} (lost : s.leaf width = .lost)
    {data : List UInt8} (wide : 4 % width = 0 ∧ 0 < width ∨ width = 8 ∧ data = leBytes 8 2)
    (bytes : wire x = zeros (padding width x) ++ data) : firstByte r width = 0 := by
  rcases wide with ⟨narrow, positive⟩ | ⟨rfl, rfl⟩
  · have between := behind.between
    cases s with
    | lagging written read =>
      rcases between with ⟨rfl, rfl, late⟩
      have order := add_padding_mono width positive late.le
      rw [padding_add_of_dvd (Nat.dvd_of_mod_eq_zero narrow)] at order
      rw [Sync.leaf] at lost
      split at lost
      case isTrue => cases lost
      case isFalse apart =>
        have missed : r.offset + padding width r.offset ≠ x + padding width x + 4 :=
          fun meets => apart ⟨narrow, meets⟩
        exact behind.firstByte_of_lt bytes (by omega)
    | inStep =>
      rw [Sync.leaf, if_pos narrow] at lost
      cases lost
    | lost => cases between
  · exact behind.firstByte_wide bytes

end Behind

theorem typedWire_lead {ty : FieldType} {width : Nat} (led : leadWidth ty = some width) (x : Nat) :
    ∃ data, typedWire ty (sample true ty) x = zeros (padding width x) ++ data ∧
      (4 % width = 0 ∧ 0 < width ∨ width = 8 ∧ data = leBytes 8 2) := by
  cases ty with
  | bool | uint8 | int8 =>
    cases led
    have none : padding 1 x = 0 := Nat.mod_one _
    rw [none]
    exact ⟨_, rfl, .inl (by decide)⟩
  | uint16 | int16 | uint32 | int32 | float32 =>
    cases led
    exact ⟨_, rfl, .inl (by decide)⟩
  | uint64 | int64 | float64 =>
    cases led
    exact ⟨_, rfl, .inr ⟨rfl, rfl⟩⟩
  | string | boundedString | sequence =>
    cases led
    exact ⟨_, List.append_assoc _ _ _, .inl (by decide)⟩
  | boundedSequence cap inner =>
    rw [leadWidth] at led
    split at led
    case isTrue => cases led
    case isFalse =>
      cases led
      exact ⟨_, List.append_assoc _ _ _, .inl (by decide)⟩
  | nested | array | wString | boundedWString => cases led

theorem misreads_lead {ty : FieldType} {width : Nat} (led : leadWidth ty = some width) {s : Sync}
    (lost : s.leaf width = .lost) {x : Nat} {r out : CdrReader}
    (behind : Behind r s x (typedWire ty (sample true ty))) :
    deserialize ty r ≠ .ok (sample true ty, out) := by
  rcases typedWire_lead led x with ⟨data, bytes, wide⟩
  exact misreads_of_zero behind.plain led (behind.firstByte_zero lost wide bytes)

section Loop

variable {inner : FieldType} {v : Value} (conforms : Conforms inner v) (fits : LengthsFit inner v)
  (misread : ∀ (s : Sync) (x : Nat) (r out : CdrReader), sync inner s = .lost →
    Behind r s x (typedWire inner v) → deserialize inner r ≠ .ok (v, out))

include conforms fits misread

/-- A loop over equal elements: those the reader can follow are read as they are, and the first
that it cannot is not. -/
theorem misreads_items (cap : Option Nat) (n : Nat) (vec : List Value) {s : Sync}
    (lost : (sync inner)^[n] s = .lost) {x : Nat} {r out : CdrReader}
    (behind : Behind r s x (Wire.many (typedWire inner) (List.replicate n v))) :
    deserializeItems cap (deserialize inner) n vec r ≠ .ok (vec ++ List.replicate n v, out) := by
  induction n generalizing s x r vec with
  | zero =>
    have between := behind.between
    rw [Function.iterate_zero_apply] at lost
    rw [lost] at between
    cases between
  | succ n ih =>
    rw [Function.iterate_succ_apply] at lost
    rw [List.replicate_succ] at behind ⊢
    rw [deserializeItems]
    by_cases here : sync inner s = .lost
    case pos =>
      intro done
      rcases bind_eq_ok.mp done with ⟨⟨first, r'⟩, one, rest⟩
      dsimp only at rest
      split at rest
      case isTrue => cases rest
      case isFalse =>
        rcases length_deserializeItems rest with ⟨others, whole, _⟩
        rw [List.append_assoc, List.append_cancel_left_eq] at whole
        cases whole
        exact misread s x r r' here behind.front one
    case neg =>
      have follows := follows_of_sync inner v s conforms here
      have front := behind.front
      rw [deserialize_of_holds inner v r conforms fits front.ready front.plain
        (front.holds follows), ok_bind]
      dsimp only
      split
      case isTrue =>
        intro full
        cases full
      case isFalse =>
        have rest := ih (vec ++ [v]) lost (behind.skip follows)
        rwa [List.append_assoc] at rest

theorem misreads_sequence (cap : Option Nat) {s : Sync} (met : s.leaf 4 = .inStep)
    (lost : sync inner .inStep = .lost) {x : Nat} {r out : CdrReader} (behind : Behind r s x
      ((cdrWord .xcdr1 4 1).andThen (Wire.many (typedWire inner) [v]))) :
    (r.readU32 >>= fun read => deserializeItems cap (deserialize inner) read.1.toNat [] read.2 >>=
      fun read => pure (Value.seq read.1, read.2)) ≠ .ok (.seq [v], out) := by
  have follows : Follows s .inStep (cdrWord .xcdr1 4 1) := by
    have word := @Follows.word s 4 1 (by rw [met]; exact Sync.noConfusion)
    rwa [met] at word
  have word := behind.front.holds follows
  have plain := behind.plain
  rw [← plain] at word
  have length := r.readLength_of_holds behind.ready 1 (by decide) word
  rw [plain] at length
  have never := @misreads_items inner v conforms fits misread cap 1 [] .inStep lost _ _ out
    (behind.skip follows)
  rw [length, ok_bind]
  intro done
  rcases bind_eq_ok.mp done with ⟨⟨items, r'⟩, looped, last⟩
  simp only [pure_eq_ok, Except.ok.injEq, Prod.mk.injEq, Value.seq.injEq] at last
  rcases last with ⟨rfl, rfl⟩
  exact never looped

end Loop

mutual

theorem misreads : ∀ (ty : FieldType) (s : Sync) (x : Nat) (r out : CdrReader),
    plainType ty = true → sync ty s = .lost → Behind r s x (typedWire ty (sample true ty)) →
    deserialize ty r ≠ .ok (sample true ty, out)
  | .bool | .uint8 | .int8 | .uint16 | .int16 | .uint32 | .int32 | .float32 | .uint64 | .int64
  | .float64 | .string | .boundedString _ =>
    fun _ _ _ _ _ lost behind => misreads_lead rfl lost behind
  | .wString | .boundedWString _ => fun _ _ _ _ plain _ _ => by cases plain
  | .nested ⟨name, fields⟩ => fun s x r out plain lost behind => by
    have opened : r.beginDheader = .ok (none, r) := by
      rw [CdrReader.beginDheader, behind.plain]
    rw [sync] at lost
    cases fields with
    | nil =>
      rw [List.isEmpty_nil, if_pos rfl] at lost
      have between := behind.between
      cases s with
      | lagging | inStep => cases lost
      | lost => cases between
    | cons field fields =>
      intro done
      simp only [deserialize, opened, ok_bind, List.isEmpty_cons, Bool.false_eq_true,
        if_false] at done
      rcases bind_eq_ok.mp done with ⟨⟨members, r'⟩, inside, rest⟩
      rcases bind_eq_ok.mp rest with ⟨r'', _, last⟩
      simp only [pure_eq_ok, Except.ok.injEq, Prod.mk.injEq, sample, Value.struct.injEq] at last
      rw [last.1] at inside
      exact misreadsFields (field :: fields) s x r r' plain lost behind inside
  | .array n inner => fun s x r out plain lost behind => by
    intro done
    rcases bind_eq_ok.mp done with ⟨⟨items, r'⟩, looped, last⟩
    simp only [pure_eq_ok, Except.ok.injEq, Prod.mk.injEq, sample, Value.array.injEq] at last
    rw [last.1] at looped
    exact misreads_items (conforms_sample true inner plain) (lengthsFit_sample true inner)
      (fun s x r out lost behind => misreads inner s x r out plain lost behind) none n [] lost
      behind looped
  | .sequence inner => fun s x r out plain lost behind => by
    rcases s.leaf_cases 4 with met | missed
    · rw [sync, met] at lost
      exact misreads_sequence (conforms_sample true inner plain) (lengthsFit_sample true inner)
        (fun s x r out lost behind => misreads inner s x r out plain lost behind) none met lost
        behind
    · exact misreads_lead rfl missed behind
  | .boundedSequence cap inner => fun s x r out plain lost behind => by
    rw [sync] at lost
    by_cases none : cap = 0
    · rw [if_pos none] at lost
      have between := behind.between
      cases s with
      | lagging written read =>
        rw [Sync.zeroWord] at lost
        split at lost
        · cases lost
        · cases lost
      | inStep => cases lost
      | lost => cases between
    · rw [if_neg none] at lost
      rcases s.leaf_cases 4 with met | missed
      · rw [met] at lost
        rw [sample, if_neg none] at behind ⊢
        exact misreads_sequence (conforms_sample true inner plain) (lengthsFit_sample true inner)
          (fun s x r out lost behind => misreads inner s x r out plain lost behind) (some cap) met
          lost behind
      · exact misreads_lead (by rw [leadWidth, if_neg none]) missed behind

theorem misreadsFields : ∀ (fields : List Field) (s : Sync) (x : Nat) (r out : CdrReader),
    plainFields fields = true → syncFields fields s = .lost →
    Behind r s x (typedWireFields fields (sampleFields true fields)) →
    deserializeFields fields r ≠ .ok (sampleFields true fields, out)
  | [], s, _, _, _, _, lost, behind => by
    have between := behind.between
    rw [syncFields] at lost
    rw [lost] at between
    cases between
  | ⟨_, ty, _⟩ :: fields, s, x, r, out, plain, lost, behind => by
    rw [plainFields, Bool.and_eq_true] at plain
    intro done
    rw [deserializeFields] at done
    rcases bind_eq_ok.mp done with ⟨⟨v, r'⟩, one, rest⟩
    rcases bind_eq_ok.mp rest with ⟨⟨members, r''⟩, others, last⟩
    simp only [pure_eq_ok, Except.ok.injEq, Prod.mk.injEq, sampleFields, List.cons.injEq] at last
    rcases last with ⟨⟨rfl, rfl⟩, rfl⟩
    by_cases here : sync ty s = .lost
    case pos => exact misreads ty s x r r' plain.1 here behind.front one
    case neg =>
      have conforms := conforms_sample true ty plain.1
      have follows := follows_of_sync ty _ s conforms here
      have read := deserialize_of_holds ty _ r conforms (lengthsFit_sample true ty) behind.ready
        behind.plain (behind.front.holds follows)
      rw [one, Except.ok.injEq, Prod.mk.injEq] at read
      rw [read.2] at others
      exact misreadsFields fields _ _ _ r'' plain.2 lost (behind.skip follows) others

end

end NanoRos
