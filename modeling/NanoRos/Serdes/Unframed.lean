import NanoRos.Serdes.Misread

/-! A reader that takes the encapsulation header for the first bytes of the value. -/

namespace NanoRos

open LittleEndian Memory

mutual

/-- Where a writer at `k` is after a type whose values are all zeros on the wire and that a reader
four bytes behind goes through. A sequence that cannot have elements is one, but in front of
everything else its length is the header. -/
def mute : FieldType → Nat → Option Nat
  | .nested ⟨_, fields⟩, k => if fields.isEmpty then some (k + 1) else muteFields fields k
  | .array n inner, k => (fun place => place.bind (mute inner))^[n] (some k)
  | .boundedSequence cap _, k => if cap = 0 ∧ k ≠ 0 then some (k + padding 4 k + 4) else none
  | _, _ => none

def muteFields : List Field → Nat → Option Nat
  | [], k => some k
  | ⟨_, ty, _⟩ :: fields, k => (mute ty k).bind (muteFields fields)

end

/-- The four bytes in front of byte `k` of a value that is zero up to there. -/
def lead : Nat → List UInt8
  | 0 => cdrLeHeader
  | 1 => [1, 0, 0, 0]
  | _ => [0, 0, 0, 0]

theorem length_lead (k : Nat) : (lead k).length = 4 := by
  rcases k with _ | _ | k
  · rfl
  · rfl
  · rfl

theorem lead_late {k : Nat} (late : 2 ≤ k) : lead k = zeros 4 := by
  rcases k with _ | _ | k
  · omega
  · omega
  · rfl

/-- A reader four bytes behind the writer of `wire`, which is at `k`. -/
structure Shifted (r : CdrReader) (k : Nat) (wire : Wire UInt8) : Prop where
  ready : r.Ready
  plain : r.version = .xcdr1
  level : r.offset % 8 = k % 8
  ahead : lead k ++ wire k <+: r.buf.drop r.pos

namespace Shifted

variable {r : CdrReader} {k : Nat} {wire first second : Wire UInt8}

theorem front (shifted : Shifted r k (first.andThen second)) : Shifted r k first := by
  have ahead := shifted.ahead
  rw [Wire.andThen, ← List.append_assoc] at ahead
  exact ⟨shifted.ready, shifted.plain, shifted.level, (List.prefix_append _ _).trans ahead⟩

theorem padding_eq (shifted : Shifted r k wire) {width : Nat} (divides : width ∣ 8) :
    padding width r.offset = padding width k := by
  have level := shifted.level
  rw [padding, padding, ← Nat.mod_mod_of_dvd r.offset divides, level, Nat.mod_mod_of_dvd k divides]

theorem step (shifted : Shifted r k wire) {front : List UInt8} {rest : Wire UInt8} {j : Nat}
    (bytes : lead k ++ wire k = front ++ (lead (k + j) ++ rest (k + j)))
    (length : front.length = j) : Shifted { r with pos := r.pos + j } (k + j) rest := by
  have ahead := shifted.ahead
  have level := shifted.level
  have ready := shifted.ready
  rw [bytes] at ahead
  have parts := (append_isPrefix_drop _ _ _ _).mp ahead
  have inside := length_of_isPrefix_drop _ _ _ parts.1 ready.within
  rw [length] at parts inside
  refine ⟨⟨Nat.le_add_right_of_le ready.origin_le, inside⟩, shifted.plain, ?_, parts.2⟩
  have order := ready.origin_le
  have place : CdrReader.offset { r with pos := r.pos + j } = r.offset + j := by
    rw [CdrReader.offset, CdrReader.offset]
    dsimp only
    omega
  rw [place]
  omega

theorem readByte (shifted : Shifted r k ((Wire.lit [0]).andThen second)) :
    ∃ byte r', r.readU8 = .ok (byte, r') ∧ Shifted r' (k + 1) second := by
  have split : ∃ byte, lead k ++ ((Wire.lit [0]).andThen second) k =
      [byte] ++ (lead (k + 1) ++ second (k + 1)) := by
    rcases k with _ | _ | k
    · exact ⟨_, rfl⟩
    · exact ⟨_, rfl⟩
    · exact ⟨_, rfl⟩
  rcases split with ⟨byte, bytes⟩
  have ahead := shifted.ahead
  rw [bytes] at ahead
  exact ⟨byte, _, r.readU8_of_holds shifted.ready byte ((List.prefix_append _ _).trans ahead),
    shifted.step bytes rfl⟩

theorem readZero (shifted : Shifted r k ((cdrWord .xcdr1 4 0).andThen second)) (begun : k ≠ 0) :
    ∃ r', r.readU32 = .ok (0, r') ∧ Shifted r' (k + padding 4 k + 4) second := by
  have split : ∃ front, front.length = padding 4 k ∧
      lead k ++ zeros (padding 4 k + 4) = front ++ (zeros 4 ++ zeros 4) := by
    by_cases one : k = 1
    · subst one
      exact ⟨[1, 0, 0], rfl, rfl⟩
    · refine ⟨zeros (padding 4 k), List.length_replicate, ?_⟩
      rw [lead_late (by omega), zeros, zeros, zeros, List.replicate_append_replicate,
        List.replicate_append_replicate, List.replicate_append_replicate]
      congr 1
      omega
  rcases split with ⟨front, length, zero⟩
  have word : cdrWord .xcdr1 4 0 k = zeros (padding 4 k + 4) := by
    rw [zeros, List.replicate_add]
    rfl
  have stop : k + (cdrWord .xcdr1 4 0 k).length = k + (padding 4 k + 4) := by
    rw [word, zeros, List.length_replicate]
  have late : lead (k + (padding 4 k + 4)) = zeros 4 := lead_late (by omega)
  have bytes : lead k ++ ((cdrWord .xcdr1 4 0).andThen second) k =
      front ++ zeros 4 ++ (lead (k + (padding 4 k + 4)) ++ second (k + (padding 4 k + 4))) := by
    rw [Wire.andThen, stop, word, ← List.append_assoc, zero, late]
    simp only [List.append_assoc]
  have total : (front ++ zeros 4).length = padding 4 k + 4 := by
    rw [List.length_append, length]
    rfl
  have moved := shifted.step bytes total
  have ahead := shifted.ahead
  rw [bytes, List.append_assoc] at ahead
  have parts := (append_isPrefix_drop _ _ _ _).mp ahead
  rw [length] at parts
  have number := slice_of_isPrefix_drop _ _ _ ((List.prefix_append _ _).trans parts.2)
  have inside := moved.ready.within
  have pad : padding (alignCap r.version 4) (r.pos - r.origin) = padding 4 k := by
    rw [shifted.plain]
    exact shifted.padding_eq ⟨2, rfl⟩
  dsimp only at inside
  have aligned : r.align 4 = .ok { r with pos := r.pos + padding 4 k } := by
    rw [CdrReader.align, pad, CdrReader.remaining]
    exact if_neg (by omega)
  refine ⟨_, ?_, moved⟩
  rw [CdrReader.readU32, CdrReader.readWord, aligned, ok_bind, CdrReader.remaining]
  dsimp only
  rw [if_neg (by omega)]
  have size : (zeros 4).length = 4 := rfl
  rw [size] at number
  rw [number]
  rfl

end Shifted

section Loop

variable {inner : FieldType}

theorem mute_bind_none (n : Nat) :
    (fun place : Option Nat => place.bind (mute inner))^[n] none = none :=
  Function.iterate_fixed rfl n

theorem mute_items (reads : ∀ (k k' : Nat) (v : Value) (r : CdrReader) (rest : Wire UInt8),
      mute inner k = some k' → Conforms inner v → Shifted r k ((typedWire inner v).andThen rest) →
      ∃ r', deserialize inner r = .ok (v, r') ∧ Shifted r' k' rest)
    (items vec : List Value) (k k' : Nat) (r : CdrReader) (rest : Wire UInt8)
    (quiet : (fun place => place.bind (mute inner))^[items.length] (some k) = some k')
    (conforms : ∀ item ∈ items, Conforms inner item)
    (shifted : Shifted r k ((Wire.many (typedWire inner) items).andThen rest)) :
    ∃ r', deserializeItems none (deserialize inner) items.length vec r = .ok (vec ++ items, r') ∧
      Shifted r' k' rest := by
  induction items generalizing vec k r with
  | nil =>
    cases quiet
    rw [Wire.many, Wire.empty_andThen] at shifted
    exact ⟨r, by rw [List.append_nil]; rfl, shifted⟩
  | cons item items ih =>
    rw [List.length_cons, Function.iterate_succ_apply, Option.bind_some] at quiet
    cases place : mute inner k with
    | none =>
      rw [place, mute_bind_none] at quiet
      cases quiet
    | some next =>
      rw [place] at quiet
      rw [Wire.many, Wire.andThen_assoc] at shifted
      rcases reads k next item r _ place (conforms item List.mem_cons_self) shifted with
        ⟨r', read, shifted'⟩
      rcases ih (vec ++ [item]) next r' quiet
        (fun later member => conforms later (List.mem_cons_of_mem item member)) shifted' with
        ⟨r'', looped, last⟩
      refine ⟨r'', ?_, last⟩
      rw [List.append_assoc] at looped
      rw [List.length_cons, deserializeItems, read, ok_bind]
      exact looped

end Loop

mutual

theorem mute_reads : ∀ (ty : FieldType) (k k' : Nat) (v : Value) (r : CdrReader)
    (rest : Wire UInt8), mute ty k = some k' → Conforms ty v →
    Shifted r k ((typedWire ty v).andThen rest) →
    ∃ r', deserialize ty r = .ok (v, r') ∧ Shifted r' k' rest
  | .nested ⟨name, fields⟩ => fun k k' _ r rest quiet conforms shifted => by
    rcases conforms with ⟨members, rfl, inside⟩
    have opened : r.beginDheader = .ok (none, r) := by
      rw [CdrReader.beginDheader, shifted.plain]
    rw [mute] at quiet
    rw [typedWire] at shifted
    cases fields with
    | nil =>
      cases quiet
      cases inside
      rcases shifted.readByte with ⟨byte, r', read, shifted'⟩
      refine ⟨r', ?_, shifted'⟩
      simp only [deserialize, opened, ok_bind, List.isEmpty_nil, if_true, read, ok_map]
      rfl
    | cons field fields =>
      rcases muteFields_reads (field :: fields) k k' members r rest quiet inside shifted with
        ⟨r', read, shifted'⟩
      refine ⟨r', ?_, shifted'⟩
      simp only [deserialize, opened, ok_bind, List.isEmpty_cons, Bool.false_eq_true,
        if_false, read]
      rfl
  | .array n inner => fun k k' _ r rest quiet conforms shifted => by
    rcases conforms with ⟨items, rfl, rfl, inside⟩
    rcases mute_items (fun k k' v r rest => mute_reads inner k k' v r rest) items [] k k' r rest
      quiet inside shifted with ⟨r', looped, shifted'⟩
    refine ⟨r', ?_, shifted'⟩
    rw [deserialize, looped]
    rfl
  | .boundedSequence cap inner => fun k k' _ r rest quiet conforms shifted => by
    rcases conforms with ⟨items, rfl, bound, _⟩
    rw [mute] at quiet
    split at quiet
    case isFalse => cases quiet
    case isTrue closed =>
      cases quiet
      have nothing : items = [] := List.eq_nil_of_length_eq_zero (by omega)
      subst nothing
      rw [typedWire, Wire.many, Wire.andThen_empty] at shifted
      rcases shifted.readZero closed.2 with ⟨r', read, shifted'⟩
      refine ⟨r', ?_, shifted'⟩
      rw [deserialize, read]
      rfl
  | .bool | .uint8 | .int8 | .uint16 | .int16 | .uint32 | .int32 | .uint64 | .int64 | .float32
  | .float64 | .string | .wString | .boundedString _ | .boundedWString _ | .sequence _ =>
    fun _ _ _ _ _ quiet _ _ => by
    cases quiet

theorem muteFields_reads : ∀ (fields : List Field) (k k' : Nat) (members : List Value)
    (r : CdrReader) (rest : Wire UInt8), muteFields fields k = some k' →
    ConformsFields fields members → Shifted r k ((typedWireFields fields members).andThen rest) →
    ∃ r', deserializeFields fields r = .ok (members, r') ∧ Shifted r' k' rest
  | [], k, k', _, r, rest, quiet, conforms, shifted => by
    cases conforms
    cases quiet
    exact ⟨r, rfl, shifted⟩
  | ⟨_, ty, _⟩ :: fields, k, k', _, r, rest, quiet, conforms, shifted => by
    rcases conforms with ⟨v, others, rfl, first, later⟩
    rcases Option.bind_eq_some_iff.mp quiet with ⟨next, place, quiet'⟩
    rw [typedWireFields, Wire.andThen_assoc] at shifted
    rcases mute_reads ty k next v r _ place first shifted with ⟨r', read, shifted'⟩
    rcases muteFields_reads fields next k' others r' rest quiet' later shifted' with
      ⟨r'', read', shifted''⟩
    refine ⟨r'', ?_, shifted''⟩
    simp only [deserializeFields, read, ok_bind, read']
    rfl

end

/-- What a reader four bytes behind looks at first: a zero in front of the member, or the one byte
of the header that is not zero. -/
theorem Shifted.firstByte_eq {r : CdrReader} {k : Nat} {wire : Wire UInt8}
    (shifted : Shifted r k wire) {width : Nat}
    (wide : width = 1 ∨ width = 2 ∨ width = 4 ∨ width = 8) {data : List UInt8}
    (bytes : wire k = zeros (padding width k) ++ data) :
    firstByte r width = if k = 1 ∧ width = 1 then 1 else 0 := by
  have divides : width ∣ 8 := by
    rcases wide with rfl | rfl | rfl | rfl <;> decide
  have ahead := shifted.ahead
  rw [bytes, ← List.append_assoc] at ahead
  have front := (List.prefix_append _ _).trans ahead
  have inside : padding width k < (lead k ++ zeros (padding width k)).length := by
    rw [List.length_append, length_lead, zeros, List.length_replicate]
    omega
  rw [firstByte, shifted.padding_eq divides, getD_of_isPrefix_drop _ _ _ 0 front inside]
  rcases k with _ | _ | k
  · rcases wide with rfl | rfl | rfl | rfl <;> rfl
  · rcases wide with rfl | rfl | rfl | rfl <;> rfl
  · rw [if_neg (by omega), lead_late (by omega), zeros, zeros, List.replicate_append_replicate,
      List.getD_eq_getElem?_getD, List.getElem?_replicate]
    split
    · rfl
    · rfl

theorem leadWidth_cases {ty : FieldType} {width : Nat} (led : leadWidth ty = some width) :
    width = 1 ∨ width = 2 ∨ width = 4 ∨ width = 8 := by
  rcases typedWire_lead led 0 with ⟨_, _, ⟨narrow, positive⟩ | ⟨wide, _⟩⟩
  · have small : width ≤ 4 := Nat.le_of_dvd (by decide) (Nat.dvd_of_mod_eq_zero narrow)
    interval_cases width
    · exact .inl rfl
    · exact .inr (.inl rfl)
    · cases narrow
    · exact .inr (.inr (.inl rfl))
  · exact .inr (.inr (.inr wide))

theorem mistakes_one {ty : FieldType} (led : leadWidth ty = some 1) :
    ∃ flag, ∀ r out, Shifted r 1 (typedWire ty (sample flag ty)) →
      deserialize ty r ≠ .ok (sample flag ty, out) := by
  have byte (r : CdrReader) (value : UInt8) (shifted : Shifted r 1 (Wire.lit [value])) :
      firstByte r 1 = 1 := by
    have bytes : Wire.lit [value] 1 = zeros (padding 1 1) ++ [value] := rfl
    exact shifted.firstByte_eq (.inl rfl) bytes
  cases ty with
  | bool =>
    refine ⟨false, fun r out shifted => ?_⟩
    refine readAs_ne (fun _ _ => Value.bool.inj) ?_
    rintro v out read rfl
    rcases bind_eq_ok.mp read with ⟨⟨found, r'⟩, first, cast⟩
    have one := readU8_first first
    rw [byte r _ shifted] at one
    subst one
    cases cast
  | uint8 =>
    refine ⟨true, fun r out shifted => ?_⟩
    refine readAs_ne (fun _ _ => Value.u8.inj) ?_
    rintro v out read rfl
    have one := readU8_first read
    rw [byte r _ shifted] at one
    cases one
  | int8 =>
    refine ⟨true, fun r out shifted => ?_⟩
    refine readAs_ne (fun _ _ => Value.i8.inj) ?_
    rintro v out read rfl
    rcases bind_eq_ok.mp read with ⟨⟨found, r'⟩, first, cast⟩
    have one := readU8_first first
    rw [byte r _ shifted] at one
    subst one
    cases cast
  | boundedSequence cap inner =>
    rw [leadWidth] at led
    split at led
    · cases led
    · cases led
  | _ => cases led

theorem mistakes_lead {ty : FieldType} {width : Nat} (led : leadWidth ty = some width) (k : Nat) :
    ∃ flag, ∀ r out, Shifted r k (typedWire ty (sample flag ty)) →
      deserialize ty r ≠ .ok (sample flag ty, out) := by
  by_cases one : k = 1 ∧ width = 1
  · rcases one with ⟨rfl, rfl⟩
    exact mistakes_one led
  · refine ⟨true, fun r out shifted => ?_⟩
    rcases typedWire_lead led k with ⟨data, bytes, _⟩
    have zero := shifted.firstByte_eq (leadWidth_cases led) bytes
    rw [if_neg one] at zero
    exact misreads_of_zero shifted.plain led zero

theorem mistakes_header (inner : FieldType) {r out : CdrReader}
    (shifted : Shifted r 0 (typedWire (.boundedSequence 0 inner) (.seq []))) :
    deserialize (.boundedSequence 0 inner) r ≠ .ok (.seq [], out) := by
  have plain := shifted.plain
  have bytes : cdrWord r.version 4 256 r.offset = cdrLeHeader := by
    have pad : padding 4 r.offset = padding 4 0 := shifted.padding_eq ⟨2, rfl⟩
    rw [plain, cdrWord, Wire.andThen, Wire.align, alignCap, pad]
    rfl
  have word : r.Holds (cdrWord r.version 4 256) := by
    rw [CdrReader.Holds, bytes]
    exact (List.prefix_append _ _).trans shifted.ahead
  have length := r.readLength_of_holds shifted.ready 256 (by decide) word
  rw [deserialize, length, ok_bind]
  intro done
  rcases bind_eq_ok.mp done with ⟨⟨items, r'⟩, looped, last⟩
  simp only [pure_eq_ok, Except.ok.injEq, Prod.mk.injEq, Value.seq.injEq] at last
  rcases length_deserializeItems looped with ⟨rest, whole, count⟩
  rw [last.1, List.nil_append] at whole
  rw [← whole] at count
  cases count

section Loop

variable {inner : FieldType}

theorem mistakes_items (plain : plainType inner = true)
    (mistake : ∀ k, mute inner k = none → ∃ flag, ∀ r out,
      Shifted r k (typedWire inner (sample flag inner)) →
      deserialize inner r ≠ .ok (sample flag inner, out)) (n k : Nat)
    (loud : (fun place => place.bind (mute inner))^[n] (some k) = none) :
    ∃ flag, ∀ vec r out,
      Shifted r k (Wire.many (typedWire inner) (List.replicate n (sample flag inner))) →
      deserializeItems none (deserialize inner) n vec r ≠
        .ok (vec ++ List.replicate n (sample flag inner), out) := by
  induction n generalizing k with
  | zero => cases loud
  | succ n ih =>
    rw [Function.iterate_succ_apply, Option.bind_some] at loud
    cases place : mute inner k with
    | none =>
      rcases mistake k place with ⟨flag, wrong⟩
      refine ⟨flag, ?_⟩
      intro vec r out shifted done
      rw [List.replicate_succ] at shifted done
      rw [deserializeItems] at done
      rcases bind_eq_ok.mp done with ⟨⟨first, r'⟩, one, rest⟩
      rcases length_deserializeItems rest with ⟨others, whole, _⟩
      rw [List.append_assoc, List.append_cancel_left_eq] at whole
      cases whole
      exact wrong r r' shifted.front one
    | some next =>
      rw [place] at loud
      rcases ih next loud with ⟨flag, wrong⟩
      refine ⟨flag, ?_⟩
      intro vec r out shifted
      rw [List.replicate_succ] at shifted ⊢
      rcases mute_reads inner k next _ r _ place (conforms_sample flag inner plain) shifted with
        ⟨r', read, shifted'⟩
      have rest := wrong (vec ++ [sample flag inner]) r' out shifted'
      rw [List.append_assoc] at rest
      rw [deserializeItems, read, ok_bind]
      exact rest

end Loop

mutual

theorem mistakes : ∀ (ty : FieldType) (k : Nat), plainType ty = true → mute ty k = none →
    ∃ flag, ∀ r out, Shifted r k (typedWire ty (sample flag ty)) →
      deserialize ty r ≠ .ok (sample flag ty, out)
  | .bool | .uint8 | .int8 | .uint16 | .int16 | .uint32 | .int32 | .uint64 | .int64 | .float32
  | .float64 | .string | .boundedString _ | .sequence _ => fun k _ _ =>
    mistakes_lead rfl k
  | .wString | .boundedWString _ => fun _ plain _ => by cases plain
  | .nested ⟨name, fields⟩ => fun k plain loud => by
    rw [mute] at loud
    cases fields with
    | nil => cases loud
    | cons field fields =>
      rcases mistakesFields (field :: fields) k plain loud with ⟨flag, wrong⟩
      refine ⟨flag, ?_⟩
      intro r out shifted done
      have opened : r.beginDheader = .ok (none, r) := by
        rw [CdrReader.beginDheader, shifted.plain]
      simp only [deserialize, opened, ok_bind, List.isEmpty_cons, Bool.false_eq_true,
        if_false] at done
      rcases bind_eq_ok.mp done with ⟨⟨members, r'⟩, inside, rest⟩
      rcases bind_eq_ok.mp rest with ⟨r'', _, last⟩
      simp only [pure_eq_ok, Except.ok.injEq, Prod.mk.injEq, sample, Value.struct.injEq] at last
      rw [last.1] at inside
      exact wrong r r' shifted inside
  | .array n inner => fun k plain loud => by
    have mistake := fun k => mistakes inner k plain
    rcases @mistakes_items inner plain mistake n k loud with ⟨flag, wrong⟩
    refine ⟨flag, ?_⟩
    intro r out shifted done
    rcases bind_eq_ok.mp done with ⟨⟨items, r'⟩, looped, last⟩
    simp only [pure_eq_ok, Except.ok.injEq, Prod.mk.injEq, sample, Value.array.injEq] at last
    rw [last.1] at looped
    exact wrong [] r r' shifted looped
  | .boundedSequence cap inner => fun k _ loud => by
    by_cases none : cap = 0
    · subst none
      have front : k = 0 := by
        by_contra begun
        rw [mute, if_pos ⟨rfl, begun⟩] at loud
        cases loud
      subst front
      exact ⟨true, fun r out shifted => mistakes_header inner shifted⟩
    · exact mistakes_lead (by rw [leadWidth, if_neg none]) k

theorem mistakesFields : ∀ (fields : List Field) (k : Nat), plainFields fields = true →
    muteFields fields k = none →
    ∃ flag, ∀ r out, Shifted r k (typedWireFields fields (sampleFields flag fields)) →
      deserializeFields fields r ≠ .ok (sampleFields flag fields, out)
  | [], _, _, loud => by cases loud
  | ⟨_, ty, _⟩ :: fields, k, plain, loud => by
    rw [plainFields, Bool.and_eq_true] at plain
    cases place : mute ty k with
    | none =>
      rcases mistakes ty k plain.1 place with ⟨flag, wrong⟩
      refine ⟨flag, ?_⟩
      intro r out shifted done
      rw [deserializeFields] at done
      rcases bind_eq_ok.mp done with ⟨⟨v, r'⟩, one, rest⟩
      rcases bind_eq_ok.mp rest with ⟨⟨members, r''⟩, _, last⟩
      simp only [pure_eq_ok, Except.ok.injEq, Prod.mk.injEq, sampleFields, List.cons.injEq] at last
      rw [last.1.1] at one
      exact wrong r r' shifted.front one
    | some next =>
      rw [muteFields, place, Option.bind_some] at loud
      rcases mistakesFields fields next plain.2 loud with ⟨flag, wrong⟩
      refine ⟨flag, ?_⟩
      intro r out shifted done
      rcases mute_reads ty k next _ r _ place (conforms_sample flag ty plain.1) shifted with
        ⟨r', read, shifted'⟩
      rw [deserializeFields, read, ok_bind] at done
      rcases bind_eq_ok.mp done with ⟨⟨members, r''⟩, others, last⟩
      simp only [pure_eq_ok, Except.ok.injEq, Prod.mk.injEq, sampleFields, List.cons.injEq] at last
      rw [last.1.2] at others
      exact wrong r' r'' shifted' others

end

end NanoRos
