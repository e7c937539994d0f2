import NanoRos.Lib.ShiftRegister

/-! The CRC-32 of the end-to-end protection (`safety.rs`), a byte at a time from a table. -/

namespace NanoRos

open ShiftRegister

/-- One turn of the inner loop that fills the table. -/
def crc32TableStep (crc : UInt32) : UInt32 :=
  if crc &&& 1 ≠ 0 then (crc >>> 1) ^^^ 0xEDB88320 else crc >>> 1

def crc32Table : Vector UInt32 256 :=
  Vector.ofFn fun i => crc32TableStep^[8] (UInt32.ofNat i)

theorem crc32_index_lt (word : UInt32) : (word &&& 0xFF).toNat < 256 := by
  rw [UInt32.toNat_and]
  exact Nat.lt_succ_of_le Nat.and_le_right

/-- The body of the loop over the bytes. -/
def crc32Byte (crc : UInt32) (byte : UInt8) : UInt32 :=
  let index := (crc ^^^ byte.toUInt32) &&& 0xFF
  have inside : index.toNat < 256 := crc32_index_lt _
  (crc >>> 8) ^^^ crc32Table[index.toNat]

def crc32 (data : List UInt8) : UInt32 := data.foldl crc32Byte 0xFFFFFFFF ^^^ 0xFFFFFFFF

/-- The check value of the standard, over the text `123456789`. -/
example : crc32 [0x31, 0x32, 0x33, 0x34, 0x35, 0x36, 0x37, 0x38, 0x39] = 0xCBF43926 := by
  decide +kernel

/-! ### The table-driven loop is a shift register -/

def crcTaps : BitVec 32 := 0xEDB88320#32

/-- Least significant bit first. -/
def byteBits (byte : UInt8) : List Bool := (List.range 8).map byte.toBitVec.getLsbD

def messageBits (data : List UInt8) : List Bool := data.flatMap byteBits

theorem length_byteBits (byte : UInt8) : (byteBits byte).length = 8 := by simp [byteBits]

theorem crc32TableStep_eq (crc : UInt32) :
    (crc32TableStep crc).toBitVec = shift crcTaps crc.toBitVec := by
  have lowest : (crc &&& 1).toBitVec =
      BitVec.setWidth 32 (BitVec.ofBool (crc.toBitVec.getLsbD 0)) := by
    rw [UInt32.toBitVec_and]
    exact BitVec.and_one_eq_setWidth_ofBool_getLsbD
  have moved : (crc >>> 1).toBitVec = crc.toBitVec >>> 1 := by simp
  rw [crc32TableStep, shift]
  cases set : crc.toBitVec.getLsbD 0 with
  | false =>
    have even : crc &&& 1 = 0 := UInt32.toBitVec_inj.mp (by rw [lowest, set]; rfl)
    rw [if_neg (not_not.mpr even), moved, if_neg Bool.false_ne_true]
  | true =>
    have odd : crc &&& 1 ≠ 0 := by
      intro zero
      rw [zero, set] at lowest
      exact absurd lowest (by decide)
    rw [if_pos odd, if_pos rfl, UInt32.toBitVec_xor, moved]
    rfl

theorem crc32TableStep_iterate (n : Nat) (crc : UInt32) :
    (crc32TableStep^[n] crc).toBitVec = shifts crcTaps n crc.toBitVec := by
  induction n generalizing crc with
  | zero => rfl
  | succ n ih => rw [Function.iterate_succ_apply, ih, crc32TableStep_eq, shifts]

theorem word_byteBits (byte : UInt8) :
    (word (byteBits byte) : BitVec 32) = byte.toBitVec.setWidth 32 := by
  apply BitVec.eq_of_getLsbD_eq
  intro i inside
  rw [getLsbD_word, BitVec.getLsbD_setWidth, byteBits]
  by_cases here : i < 8
  · simp [here]
  · simp [here, BitVec.getLsbD_of_ge byte.toBitVec i (Nat.not_lt.mp here)]

theorem low_eight (s : BitVec 32) : low 8 s = s &&& 0xFF#32 := by
  have ones : (0xFF#32 : BitVec 32) = BitVec.ofNat 32 (2 ^ 8 - 1) := rfl
  apply BitVec.eq_of_getLsbD_eq
  intro i inside
  rw [low, BitVec.getLsbD_xor, BitVec.getLsbD_shiftLeft, BitVec.getLsbD_ushiftRight,
    BitVec.getLsbD_and, ones, BitVec.getLsbD_ofNat, Nat.testBit_two_pow_sub_one]
  by_cases here : i < 8
  · simp [here, inside]
  · have back : 8 + (i - 8) = i := by omega
    simp [here, inside, back]

theorem crc32Byte_eq (crc : UInt32) (byte : UInt8) :
    (crc32Byte crc byte).toBitVec = feed crcTaps crc.toBitVec (byteBits byte) := by
  have entry (i : Nat) (inside : i < 256) :
      crc32Table[i].toBitVec = shifts crcTaps 8 (UInt32.ofNat i).toBitVec := by
    rw [← crc32TableStep_iterate]
    simp only [crc32Table, Vector.getElem_ofFn]
  have above : byte.toBitVec.setWidth 32 >>> 8 = 0#32 := by
    apply BitVec.eq_of_getLsbD_eq
    intro i _
    simp
  have moved : (crc >>> 8).toBitVec = crc.toBitVec >>> 8 := by simp
  rw [feed_eq_shifts crcTaps _ (by rw [length_byteBits]; decide), length_byteBits, word_byteBits,
    shifts_eq_low, low_eight, BitVec.ushiftRight_xor_distrib, above, BitVec.xor_zero, crc32Byte,
    UInt32.toBitVec_xor, entry, moved, UInt32.ofNat_toNat]
  rfl

section

variable (data : List UInt8)

theorem crc32_toBitVec (crc : UInt32) :
    (data.foldl crc32Byte crc).toBitVec = feed crcTaps crc.toBitVec (messageBits data) := by
  induction data generalizing crc with
  | nil => rfl
  | cons byte data ih =>
    rw [List.foldl_cons, ih, crc32Byte_eq, messageBits, messageBits, List.flatMap_cons, feed_append]

/-- The table only saves time: the checksum is that of a register that is fed a bit at a time. -/
theorem crc32_bitwise : (crc32 data).toBitVec =
    feed crcTaps (BitVec.allOnes 32) (messageBits data) ^^^ BitVec.allOnes 32 := by
  rw [crc32, UInt32.toBitVec_xor, crc32_toBitVec]
  rfl

/-! ### What two messages differ by -/

def xorBytes (a b : List UInt8) : List UInt8 := List.zipWith (· ^^^ ·) a b

theorem length_messageBits : (messageBits data).length = 8 * data.length := by
  induction data with
  | nil => rfl
  | cons byte data ih =>
    rw [messageBits, List.flatMap_cons, List.length_append, length_byteBits, ← messageBits, ih,
      List.length_cons]
    omega

theorem byteBits_xor (a b : UInt8) :
    byteBits (a ^^^ b) = List.zipWith (· ^^ ·) (byteBits a) (byteBits b) := by
  simp [byteBits, List.zipWith_map]

theorem messageBits_xor {a b : List UInt8} (same : a.length = b.length) :
    messageBits (xorBytes a b) = List.zipWith (· ^^ ·) (messageBits a) (messageBits b) := by
  induction a generalizing b with
  | nil => rfl
  | cons x a ih =>
    cases b with
    | nil => cases same
    | cons y b =>
      have rest := ih (Nat.succ.inj same)
      simp only [messageBits, xorBytes, List.zipWith_cons_cons, List.flatMap_cons] at rest ⊢
      rw [rest, byteBits_xor, List.zipWith_append (by rw [length_byteBits, length_byteBits])]

theorem crc32_eq_iff {a b : List UInt8} (same : a.length = b.length) :
    crc32 a = crc32 b ↔ feed crcTaps 0#32 (messageBits (xorBytes a b)) = 0#32 := by
  have lengths : (messageBits a).length = (messageBits b).length := by
    rw [length_messageBits, length_messageBits, same]
  calc
    crc32 a = crc32 b ↔ a.foldl crc32Byte 0xFFFFFFFF = b.foldl crc32Byte 0xFFFFFFFF := by
      rw [crc32, crc32, UInt32.xor_left_inj]
    _ ↔ feed crcTaps _ (messageBits a) = feed crcTaps _ (messageBits b) := by
      rw [← UInt32.toBitVec_inj, crc32_toBitVec, crc32_toBitVec]
    _ ↔ feed crcTaps _ (messageBits a) ^^^ feed crcTaps _ (messageBits b) = 0#32 :=
      BitVec.xor_eq_zero_iff.symm
    _ ↔ _ := by rw [feed_xor crcTaps _ _ lengths, BitVec.xor_self, messageBits_xor same]

theorem getElem?_messageBits (p : Nat) :
    (messageBits data)[p]? = data[p / 8]?.map fun byte => byte.toBitVec.getLsbD (p % 8) := by
  induction data generalizing p with
  | nil => rfl
  | cons byte data ih =>
    rw [messageBits, List.flatMap_cons, ← messageBits]
    by_cases first : p < 8
    · rw [List.getElem?_append_left (by rw [length_byteBits]; exact first),
        Nat.div_eq_of_lt first, Nat.mod_eq_of_lt first]
      simp [byteBits, first]
    · have later : p / 8 = (p - 8) / 8 + 1 := by omega
      have place : p % 8 = (p - 8) % 8 := by omega
      rw [List.getElem?_append_right (by rw [length_byteBits]; omega), length_byteBits, ih,
        later, place, List.getElem?_cons_succ]

theorem true_mem_messageBits {data : List UInt8} {byte : UInt8} (member : byte ∈ data)
    (some_ : byte ≠ 0) : true ∈ messageBits data := by
  refine List.mem_flatMap.mpr ⟨byte, member, ?_⟩
  by_contra none
  apply some_
  apply UInt8.toBitVec_inj.mp
  apply BitVec.eq_of_getLsbD_eq
  intro i inside
  rw [UInt8.toBitVec_zero, BitVec.getLsbD_zero, Bool.eq_false_iff]
  intro set
  exact none (List.mem_map.mpr ⟨i, List.mem_range.mpr inside, set⟩)

theorem burst_of_window {bits : List Bool} {start width : Nat}
    (window : ∀ p, bits[p]? = some true → start ≤ p ∧ p < start + width) :
    ∃ before after, bits = List.replicate before false ++ (bits.drop start).take width ++
      List.replicate after false := by
  have clear {part : List Bool} (none : true ∉ part) : part = List.replicate part.length false := by
    apply List.eq_replicate_iff.mpr ⟨rfl, fun b member => ?_⟩
    rw [← Bool.not_eq_true]
    rintro rfl
    exact none member
  have front : true ∉ bits.take start := by
    intro member
    rcases List.mem_iff_getElem?.mp member with ⟨p, set⟩
    rw [List.getElem?_take] at set
    split at set
    case isTrue before => exact absurd (window p set).1 (Nat.not_le.mpr before)
    case isFalse => cases set
  have back : true ∉ (bits.drop start).drop width := by
    intro member
    rcases List.mem_iff_getElem?.mp member with ⟨p, set⟩
    rw [List.drop_drop, List.getElem?_drop] at set
    exact absurd (window _ set).2 (by omega)
  refine ⟨(bits.take start).length, ((bits.drop start).drop width).length, ?_⟩
  rw [← clear front, ← clear back, List.append_assoc, List.take_append_drop, List.take_append_drop]

theorem getElem?_xorBytes_modify (place i : Nat) (mask : UInt8) :
    (xorBytes (data.modify place (· ^^^ mask)) data)[i]? =
      data[i]?.map fun _ => if place = i then mask else 0 := by
  rw [xorBytes, List.getElem?_zipWith, List.getElem?_modify]
  cases data[i]? with
  | none => rfl
  | some byte =>
    by_cases here : place = i
    · simp only [Option.map_eq_map, Option.map_some, if_pos here]
      rw [UInt8.xor_comm byte, UInt8.xor_assoc, UInt8.xor_self, UInt8.xor_zero]
    · simp [here]

end

/-- Every burst of at most 32 bits is detected, anywhere in a message of any length; in particular
the flip of one bit. -/
theorem crc32_detects_bursts :
    (∀ (a b : List UInt8) (start : Nat), a.length = b.length → (∃ byte ∈ xorBytes a b, byte ≠ 0) →
      (∀ p, (messageBits (xorBytes a b))[p]? = some true → start ≤ p ∧ p < start + 32) →
      crc32 a ≠ crc32 b) ∧
    ∀ (data : List UInt8) (place : Nat) (bit : Fin 8), place < data.length →
      crc32 (data.modify place (· ^^^ 1 <<< UInt8.ofNat bit)) ≠ crc32 data := by
  have bursts : ∀ (a b : List UInt8) (start : Nat), a.length = b.length →
      (∃ byte ∈ xorBytes a b, byte ≠ 0) →
      (∀ p, (messageBits (xorBytes a b))[p]? = some true → start ≤ p ∧ p < start + 32) →
      crc32 a ≠ crc32 b := by
    rintro a b start same ⟨byte, member, some_⟩ window
    have marked := true_mem_messageBits member some_
    rcases burst_of_window window with ⟨before, after, split⟩
    have inside : true ∈ ((messageBits (xorBytes a b)).drop start).take 32 := by
      rw [split] at marked
      simpa using marked
    rw [ne_eq, crc32_eq_iff same, split]
    exact feed_burst_ne_zero (by decide) before after (List.length_take_le _ _) inside
  refine ⟨bursts, fun data place bit inside => ?_⟩
  have flipped := getElem?_xorBytes_modify data place
  have some_ : (1 : UInt8) <<< UInt8.ofNat bit ≠ 0 := by revert bit; decide
  apply bursts _ _ (8 * place) (List.length_modify _ _ _)
  · refine ⟨1 <<< UInt8.ofNat bit, ?_, some_⟩
    apply List.mem_of_getElem? (i := place)
    rw [flipped, List.getElem?_eq_getElem inside, if_pos rfl]
    rfl
  · intro p set
    rw [getElem?_messageBits, flipped] at set
    by_cases here : place = p / 8
    · omega
    · simp [here] at set

/-- Two bytes in the middle of a message. -/
theorem crc32_detects_bursts_middle :
    crc32 [1, 2, 3, 4, 5] ≠ crc32 [1, 0x82, 0xC3, 4, 5] ∧ crc32 [1, 2, 7, 4] ≠ crc32 [1, 2, 3, 4] := by
  constructor
  · refine crc32_detects_bursts.1 [1, 2, 3, 4, 5] [1, 0x82, 0xC3, 4, 5] 8 rfl
      ⟨0x80, by decide, by decide⟩ fun p set => ?_
    have inside : p < 40 := (List.getElem?_eq_some_iff.mp set).1
    have all : ∀ q < 40, (messageBits (xorBytes [1, 2, 3, 4, 5] [1, 0x82, 0xC3, 4, 5]))[q]? =
        some true → 8 ≤ q ∧ q < 8 + 32 := by decide
    exact all p inside set
  · exact crc32_detects_bursts.2 [1, 2, 3, 4] 2 2 (by decide)

end NanoRos
