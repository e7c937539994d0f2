import NanoRos.Node.ParamSizing
import NanoRos.Serdes.Stops

/-! What the messages of the parameter services cost on the wire, against what they are priced at.
-/

namespace NanoRos

open CdrWriter

variable {α : Type}

theorem writeSequence_stops {write : CdrWriter → α → Except SerError CdrWriter}
    {stop : α → Nat → Nat} {items : List α}
    (each : ∀ item ∈ items, Stops (fun w => write w item) (stop item)) :
    Stops (fun w => writeSequence write w items)
      (fun offset => placed stop items (alignUp 4 offset + 4)) :=
  (writeSequenceLen_stops items.length).bind (foldlM_stops each)

def stringStop (s : String) (offset : Nat) : Nat := alignUp 4 offset + 4 + byteLen s + 1

theorem stringStop_le (s : String) (offset : Nat) :
    stringStop s offset ≤ offset + (cdrStr + byteLen s) := by
  have pad := alignUp_lt (by decide : 0 < 4) offset
  rw [stringStop, cdrStr]
  omega

theorem alignUp_stringStop_le (s : String) (offset : Nat) :
    alignUp 4 (stringStop s offset) ≤ alignUp 4 offset + (cdrStr + byteLen s) := by
  have pad := alignUp_lt (by decide : 0 < 4) (stringStop s offset)
  rw [stringStop, cdrStr] at *
  omega

def lengthStop (offset : Nat) : Nat := alignUp 4 offset + 4

theorem lengthStop_of_mod {offset : Nat} (aligned : offset % 4 = 0) :
    lengthStop offset = offset + 4 := by
  rw [lengthStop, alignUp_of_mod aligned]

/-- The scalar members, the string last. -/
def headStop (s : String) (offset : Nat) : Nat :=
  stringStop s (alignUp 8 (alignUp 8 (offset + 1 + 1) + 8) + 8)

/-- Where the words of a value begin, behind its two single bytes. -/
def wordStart (offset : Nat) : Nat := alignUp 8 (offset + 2)

theorem wordStart_mod (offset : Nat) : wordStart offset % 8 = 0 :=
  alignUp_mod (by decide : 0 < 8) (offset + 2)

theorem headStop_eq (s : String) (offset : Nat) :
    headStop s offset = wordStart offset + 21 + byteLen s := by
  have aligned := wordStart_mod offset
  have first : alignUp 8 (offset + 1 + 1) = wordStart offset := rfl
  have second : alignUp 8 (wordStart offset + 8) = wordStart offset + 8 :=
    alignUp_of_mod (by omega)
  have text : alignUp 4 (wordStart offset + 8 + 8) = wordStart offset + 8 + 8 :=
    alignUp_of_mod (by omega)
  rw [headStop, stringStop, first, second, text]
  omega

def wordsStop (v : List α) (offset : Nat) : Nat := placed (fun _ o => alignUp 8 o + 8) v offset

def stringsStop (v : List String) (offset : Nat) : Nat := placed stringStop v offset

/-- Where a value stops, member by member. -/
def valueStop : ParameterValue → Nat → Nat
  | .string s, o => lengthStop (lengthStop (lengthStop (lengthStop (lengthStop (headStop s o)))))
  | .byteArray v, o =>
    lengthStop (lengthStop (lengthStop (lengthStop (lengthStop (headStop "" o) + v.length))))
  | .boolArray v, o =>
    lengthStop (lengthStop (lengthStop (lengthStop (lengthStop (headStop "" o)) + v.length)))
  | .integerArray v, o =>
    lengthStop (lengthStop (wordsStop v (lengthStop (lengthStop (lengthStop (headStop "" o))))))
  | .doubleArray v, o =>
    lengthStop (wordsStop v
      (lengthStop (lengthStop (lengthStop (lengthStop (headStop "" o))))))
  | .stringArray v, o =>
    stringsStop v
      (lengthStop (lengthStop (lengthStop (lengthStop (lengthStop (headStop "" o))))))
  | _, o => lengthStop (lengthStop (lengthStop (lengthStop (lengthStop (headStop "" o)))))

theorem members_stops (code : UInt8) (b : Bool) (i : Int64) (d : F64) (s : String)
    {bytes bools integers doubles strings : CdrWriter → Except SerError CdrWriter}
    {stop1 stop2 stop3 stop4 stop5 : Nat → Nat} (one : Stops bytes stop1)
    (two : Stops bools stop2) (three : Stops integers stop3) (four : Stops doubles stop4)
    (five : Stops strings stop5) :
    Stops (fun w => do
      let w ← w.writeU8 code
      let w ← w.writeBool b
      let w ← w.writeI64 i
      let w ← w.writeF64 d
      let w ← w.writeString s
      let w ← bytes w
      let w ← bools w
      let w ← integers w
      let w ← doubles w
      strings w) fun o => stop5 (stop4 (stop3 (stop2 (stop1 (headStop s o))))) :=
  (writeU8_stops code).bind <| (writeBool_stops b).bind <| (writeI64_stops i).bind <|
    (writeF64_stops d).bind <| (writeString_stops s).bind <| one.bind <| two.bind <|
      three.bind <| four.bind five

theorem bytes_placed (v : List α) (offset : Nat) :
    placed (fun _ o => o + 1) v offset = offset + v.length := by
  induction v generalizing offset with
  | nil => rfl
  | cons a v ih =>
    rw [placed, List.foldl_cons, ← placed, ih, List.length_cons]
    omega

theorem writeParameterValue_stops (value : ParameterValue) :
    Stops (fun w => writeParameterValue w value) (valueStop value) := by
  have none : Stops (fun w => w.writeSequenceLen 0) lengthStop := writeSequenceLen_stops 0
  cases value with
  | notSet =>
    have stops := members_stops 0 false 0 ⟨0⟩ "" none none none none none
    exact stops
  | bool v =>
    have stops := members_stops 1 v 0 ⟨0⟩ "" none none none none none
    exact stops
  | integer v =>
    have stops := members_stops 2 false v ⟨0⟩ "" none none none none none
    exact stops
  | double v =>
    have stops := members_stops 3 false 0 v "" none none none none none
    exact stops
  | string v =>
    have stops := members_stops 4 false 0 ⟨0⟩ v none none none none none
    exact stops
  | byteArray v =>
    have some : Stops (fun w => writeSequence CdrWriter.writeU8 w v)
        (fun o => lengthStop o + v.length) := by
      have stops := writeSequence_stops fun b (_ : b ∈ v) => writeU8_stops b
      simp only [bytes_placed] at stops
      exact stops
    have stops := members_stops 5 false 0 ⟨0⟩ "" some none none none none
    exact stops
  | boolArray v =>
    have some : Stops (fun w => writeSequence CdrWriter.writeBool w v)
        (fun o => lengthStop o + v.length) := by
      have stops := writeSequence_stops fun b (_ : b ∈ v) => writeBool_stops b
      simp only [bytes_placed] at stops
      exact stops
    have stops := members_stops 6 false 0 ⟨0⟩ "" none some none none none
    exact stops
  | integerArray v =>
    have some : Stops (fun w => writeSequence CdrWriter.writeI64 w v)
        (fun o => wordsStop v (lengthStop o)) :=
      writeSequence_stops fun i _ => writeI64_stops i
    have stops := members_stops 7 false 0 ⟨0⟩ "" none none some none none
    exact stops
  | doubleArray v =>
    have some : Stops (fun w => writeSequence CdrWriter.writeF64 w v)
        (fun o => wordsStop v (lengthStop o)) :=
      writeSequence_stops fun d _ => writeF64_stops d
    have stops := members_stops 8 false 0 ⟨0⟩ "" none none none some none
    exact stops
  | stringArray v =>
    have some : Stops (fun w => writeSequence CdrWriter.writeString w v)
        (fun o => stringsStop v (lengthStop o)) :=
      writeSequence_stops fun s _ => writeString_stops s
    have stops := members_stops 9 false 0 ⟨0⟩ "" none none none none some
    exact stops

/-! Prices. -/

/-- What the data of a type adds to the price of a value. -/
def dataPrice (caps : ParamWireCaps) : ParameterType → Nat
  | .string => caps.string
  | .byteArray => caps.byteArray
  | .boolArray => caps.array
  | .integerArray => 7 + 8 * caps.array
  | .doubleArray => 7 + 8 * caps.array
  | .stringArray => caps.array * (cdrStr + caps.string)
  | _ => 0

theorem lengths_eq (n offset : Nat) :
    lengthStop^[n + 1] offset = alignUp 4 offset + 4 * (n + 1) := by
  induction n with
  | zero => rfl
  | succ n ih =>
    have aligned := alignUp_mod (by decide : 0 < 4) offset
    rw [Function.iterate_succ_apply', ih, lengthStop_of_mod (by omega)]
    omega

theorem wordsStop_of_mod (v : List α) {offset : Nat} (aligned : offset % 8 = 0) :
    wordsStop v offset = offset + 8 * v.length := by
  induction v generalizing offset with
  | nil => rfl
  | cons a v ih =>
    rw [wordsStop, placed, List.foldl_cons, ← placed, ← wordsStop, alignUp_of_mod aligned,
      ih (by omega), List.length_cons]
    omega

theorem wordsStop_nil (offset : Nat) : wordsStop ([] : List α) offset = offset := rfl

theorem wordsStop_cons (a : α) (v : List α) (offset : Nat) :
    wordsStop (a :: v) offset = alignUp 8 offset + 8 + 8 * v.length := by
  have aligned := alignUp_mod (by decide : 0 < 8) offset
  rw [wordsStop, placed, List.foldl_cons, ← placed, ← wordsStop, wordsStop_of_mod v (by omega)]

theorem byteLen_empty : byteLen "" = 0 := by decide

section

variable (offset : Nat)

theorem valueStop_notSet : valueStop .notSet offset = wordStart offset + 44 := by
  change lengthStop^[4 + 1] (headStop "" offset) = _
  have aligned := wordStart_mod offset
  rw [lengths_eq, headStop_eq, byteLen_empty, alignUp, padding]
  omega

theorem valueStop_string (s : String) :
    valueStop (.string s) offset = alignUp 4 (wordStart offset + 21 + byteLen s) + 20 := by
  change lengthStop^[4 + 1] (headStop s offset) = _
  rw [lengths_eq, headStop_eq]

theorem leading_eq (n : Nat) :
    lengthStop^[n + 1] (headStop "" offset) = wordStart offset + 24 + 4 * (n + 1) := by
  have aligned := wordStart_mod offset
  rw [lengths_eq, headStop_eq, byteLen_empty, alignUp, padding]
  omega

theorem valueStop_byteArray (v : List UInt8) :
    valueStop (.byteArray v) offset = wordStart offset + 44 + alignUp 4 v.length := by
  change lengthStop^[3 + 1] (lengthStop^[0 + 1] (headStop "" offset) + v.length) = _
  have aligned := wordStart_mod offset
  rw [lengths_eq, leading_eq, alignUp, alignUp, padding, padding]
  omega

theorem valueStop_boolArray (v : List Bool) :
    valueStop (.boolArray v) offset = wordStart offset + 44 + alignUp 4 v.length := by
  change lengthStop^[2 + 1] (lengthStop^[1 + 1] (headStop "" offset) + v.length) = _
  have aligned := wordStart_mod offset
  rw [lengths_eq, leading_eq, alignUp, alignUp, padding, padding]
  omega

theorem valueStop_integerArray (v : List Int64) : valueStop (.integerArray v) offset =
    wordsStop v (wordStart offset + 36) + 8 := by
  change lengthStop^[1 + 1] (wordsStop v (lengthStop^[2 + 1] (headStop "" offset))) = _
  have aligned := wordStart_mod offset
  rw [lengths_eq, leading_eq, alignUp_of_mod]
  cases v with
  | nil =>
    change (wordStart offset + 24 + 4 * (2 + 1)) % 4 = 0
    omega
  | cons a v =>
    have words := alignUp_mod (by decide : 0 < 8) (wordStart offset + 24 + 4 * (2 + 1))
    rw [wordsStop_cons]
    omega

theorem valueStop_doubleArray (v : List F64) : valueStop (.doubleArray v) offset =
    wordStart offset + 44 + 8 * v.length := by
  change lengthStop^[0 + 1] (wordsStop v (lengthStop^[3 + 1] (headStop "" offset))) = _
  have aligned := wordStart_mod offset
  rw [lengths_eq, leading_eq, wordsStop_of_mod v (by omega), alignUp_of_mod (by omega)]
  omega

theorem valueStop_stringArray (v : List String) : valueStop (.stringArray v) offset =
    stringsStop v (wordStart offset + 44) := by
  change stringsStop v (lengthStop^[4 + 1] (headStop "" offset)) = _
  rw [leading_eq]

end

theorem stringsStop_le (v : List String) {count text : Nat} (length : v.length ≤ count)
    (each : ∀ s ∈ v, byteLen s ≤ text) (offset : Nat) :
    alignUp 4 (stringsStop v offset) ≤ alignUp 4 offset + count * (cdrStr + text) := by
  have reach := placed_le (alignUp 4) (fun s (_ : s ∈ v) o => alignUp_stringStop_le s o) offset
  have sum : (v.map fun s => cdrStr + byteLen s).sum ≤ v.length * (cdrStr + text) := by
    have bounded := List.sum_le_card_nsmul (v.map fun s => cdrStr + byteLen s) (cdrStr + text)
      (by
        intro cost member
        obtain ⟨s, inside, rfl⟩ := List.mem_map.mp member
        exact Nat.add_le_add_left (each s inside) cdrStr)
    rw [List.length_map, smul_eq_mul] at bounded
    exact bounded
  have whole := Nat.mul_le_mul_right (cdrStr + text) length
  rw [stringsStop]
  omega

/-! How far a message reaches. -/

def reach (offset : Nat) : Nat := max offset (wordStart offset - 6)

theorem le_reach (offset : Nat) : offset ≤ reach offset := Nat.le_max_left _ _

theorem wordStart_le_reach (offset : Nat) : wordStart offset ≤ reach offset + 6 := by
  rw [reach]
  omega

theorem reach_le (offset : Nat) : reach offset ≤ alignUp 4 offset + 2 := by
  rw [reach, wordStart, alignUp, alignUp, padding, padding]
  omega

theorem reach_of_even {offset : Nat} (even : offset % 8 = 0) : reach offset = offset + 2 := by
  rw [reach, wordStart, alignUp, padding]
  omega

theorem reach_of_odd {offset : Nat} (odd : offset % 8 = 4) : reach offset = offset := by
  rw [reach, wordStart, alignUp, padding]
  omega

section

variable {caps : ParamWireCaps} {value : ParameterValue}

theorem alignUp_valueStop_le (within : value.Within caps) (offset : Nat) :
    alignUp 4 (valueStop value offset) ≤
      wordStart offset + 47 + dataPrice caps value.paramType := by
  have aligned := wordStart_mod offset
  have scalar : alignUp 4 (valueStop .notSet offset) ≤ wordStart offset + 47 := by
    rw [valueStop_notSet, alignUp_of_mod (by omega)]
    omega
  cases value with
  | notSet => exact scalar
  | bool v => exact scalar
  | integer v => exact scalar
  | double v => exact scalar
  | string s =>
    rw [valueStop_string, ParameterValue.paramType, dataPrice]
    rw [ParameterValue.Within] at within
    rw [alignUp, alignUp, padding, padding]
    omega
  | byteArray v =>
    rw [valueStop_byteArray, ParameterValue.paramType, dataPrice]
    rw [ParameterValue.Within] at within
    rw [alignUp, alignUp, padding, padding]
    omega
  | boolArray v =>
    rw [valueStop_boolArray, ParameterValue.paramType, dataPrice]
    rw [ParameterValue.Within] at within
    rw [alignUp, alignUp, padding, padding]
    omega
  | integerArray v =>
    rw [valueStop_integerArray, ParameterValue.paramType, dataPrice]
    rw [ParameterValue.Within] at within
    cases v with
    | nil =>
      rw [wordsStop_nil, alignUp_of_mod (by omega)]
      omega
    | cons a v =>
      rw [List.length_cons] at within
      rw [wordsStop_cons, alignUp, alignUp, padding, padding]
      omega
  | doubleArray v =>
    rw [valueStop_doubleArray, ParameterValue.paramType, dataPrice, alignUp_of_mod (by omega)]
    rw [ParameterValue.Within] at within
    omega
  | stringArray v =>
    rw [valueStop_stringArray, ParameterValue.paramType, dataPrice]
    rw [ParameterValue.Within] at within
    have strings := stringsStop_le v within.1 within.2 (wordStart offset + 44)
    rw [alignUp_of_mod (by omega : (wordStart offset + 44) % 4 = 0)] at strings
    omega

/-- So many bytes, filled up to a word, are two or three more and end on a word boundary. -/
def Unpriced (capacity : Nat) : Prop := capacity % 8 = 1 ∨ capacity % 8 = 2

instance : DecidablePred Unpriced := fun capacity =>
  inferInstanceAs (Decidable (capacity % 8 = 1 ∨ capacity % 8 = 2))

theorem reach_array_le {start length capacity : Nat} (aligned : start % 8 = 0)
    (priced : ¬ Unpriced capacity) (within : length ≤ capacity) :
    reach (start + 44 + alignUp 4 length) ≤ start + 47 + capacity := by
  rw [Unpriced] at priced
  have gap := alignUp_lt (by decide : 0 < 4) length
  have whole := alignUp_mod (by decide : 0 < 4) length
  by_cases odd : (start + 44 + alignUp 4 length) % 8 = 4
  · rw [reach_of_odd odd]
    omega
  · rw [reach_of_even (by omega)]
    omega

theorem reach_valueStop_le (bytes : ¬ Unpriced caps.byteArray) (bools : ¬ Unpriced caps.array)
    (within : value.Within caps) (offset : Nat) :
    reach (valueStop value offset) ≤ wordStart offset + 47 + dataPrice caps value.paramType := by
  have aligned := wordStart_mod offset
  have scalar : reach (valueStop .notSet offset) ≤ wordStart offset + 47 := by
    rw [valueStop_notSet, reach_of_odd (by omega)]
    omega
  cases value with
  | notSet => exact scalar
  | bool v => exact scalar
  | integer v => exact scalar
  | double v => exact scalar
  | string s =>
    have most := reach_le (valueStop (.string s) offset)
    rw [valueStop_string] at most ⊢
    rw [ParameterValue.paramType, dataPrice]
    rw [ParameterValue.Within] at within
    rw [alignUp, alignUp, padding, padding] at most
    rw [alignUp, padding]
    omega
  | byteArray v =>
    rw [valueStop_byteArray, ParameterValue.paramType, dataPrice]
    rw [ParameterValue.Within] at within
    exact reach_array_le aligned bytes within
  | boolArray v =>
    rw [valueStop_boolArray, ParameterValue.paramType, dataPrice]
    rw [ParameterValue.Within] at within
    exact reach_array_le aligned bools within
  | integerArray v =>
    rw [valueStop_integerArray, ParameterValue.paramType, dataPrice]
    rw [ParameterValue.Within] at within
    cases v with
    | nil =>
      rw [wordsStop_nil, reach_of_odd (by omega)]
      omega
    | cons a v =>
      have most := reach_le (wordsStop (a :: v) (wordStart offset + 36) + 8)
      rw [List.length_cons] at within
      rw [wordsStop_cons] at most ⊢
      rw [alignUp, alignUp, padding, padding] at most
      rw [alignUp, padding]
      omega
  | doubleArray v =>
    rw [valueStop_doubleArray, ParameterValue.paramType, dataPrice, reach_of_odd (by omega)]
    rw [ParameterValue.Within] at within
    omega
  | stringArray v =>
    have most := reach_le (valueStop (.stringArray v) offset)
    rw [valueStop_stringArray] at most ⊢
    rw [ParameterValue.paramType, dataPrice]
    rw [ParameterValue.Within] at within
    have strings := stringsStop_le v within.1 within.2 (wordStart offset + 44)
    rw [alignUp_of_mod (by omega : (wordStart offset + 44) % 4 = 0)] at strings
    omega

def valuePrice (caps : ParamWireCaps) (ty : ParameterType) : Nat := cdrValueBase + dataPrice caps ty

theorem value_priced (bytes : ¬ Unpriced caps.byteArray) (bools : ¬ Unpriced caps.array)
    (within : value.Within caps) (offset : Nat) :
    reach (valueStop value offset) ≤ reach offset + valuePrice caps value.paramType := by
  have most := reach_valueStop_le bytes bools within offset
  have start := wordStart_le_reach offset
  rw [valuePrice, cdrValueBase]
  omega

theorem named_priced (within : value.Within caps) (name : String) (offset : Nat) :
    alignUp 4 (valueStop value (stringStop name offset)) ≤
      alignUp 4 offset + (cdrStr + byteLen name + valuePrice caps value.paramType) := by
  have most := alignUp_valueStop_le within (stringStop name offset)
  have gap := alignUp_lt (by decide : 0 < 8) (stringStop name offset + 2)
  rw [wordStart] at most
  rw [valuePrice, cdrValueBase, cdrStr]
  rw [stringStop] at *
  omega

end

/-! Descriptors and results. -/

theorem byteLen_fitOrEmpty (s : String) : byteLen (fitOrEmpty s) ≤ byteLen s := by
  rw [fitOrEmpty]
  split
  · exact Nat.le_refl _
  · rw [byteLen_empty]
    exact Nat.zero_le _

def rangeStop (offset : Nat) : Nat := alignUp 8 (alignUp 8 (alignUp 8 offset + 8) + 8) + 8

theorem rangeStop_eq (offset : Nat) : rangeStop offset = alignUp 8 offset + 24 := by
  have aligned := alignUp_mod (by decide : 0 < 8) offset
  rw [rangeStop, @alignUp_of_mod 8 (alignUp 8 offset + 8) (by omega),
    @alignUp_of_mod 8 (alignUp 8 offset + 8 + 8) (by omega)]

/-- The two sequences of ranges, of which one at most has an element. -/
def rangesStop : ParameterRange → Nat → Nat
  | .none, o => lengthStop (lengthStop o)
  | .floatingPoint _, o => lengthStop (rangeStop (lengthStop o))
  | .integer _, o => rangeStop (lengthStop (lengthStop o))

def descriptorStop (name description constraints : String) (range : ParameterRange)
    (offset : Nat) : Nat :=
  rangesStop range
    (stringStop constraints (stringStop description (stringStop name offset + 1)) + 1 + 1)

theorem rangesStop_le (range : ParameterRange) (offset : Nat) :
    alignUp 4 (rangesStop range offset) ≤ offset + 39 := by
  have gap := alignUp_lt (by decide : 0 < 4) offset
  have aligned := alignUp_mod (by decide : 0 < 4) offset
  have whole : rangesStop range offset % 4 = 0 ∧ rangesStop range offset ≤ offset + 39 := by
    have one : lengthStop offset = alignUp 4 offset + 4 := rfl
    have two : lengthStop (lengthStop offset) = lengthStop offset + 4 :=
      lengthStop_of_mod (by omega)
    cases range with
    | none =>
      rw [rangesStop, two]
      omega
    | floatingPoint range =>
      have words := alignUp_mod (by decide : 0 < 8) (lengthStop offset)
      have filled := alignUp_lt (by decide : 0 < 8) (lengthStop offset)
      rw [rangesStop, rangeStop_eq, lengthStop_of_mod (by omega)]
      omega
    | integer range =>
      have words := alignUp_mod (by decide : 0 < 8) (lengthStop offset + 4)
      have filled := alignUp_lt (by decide : 0 < 8) (lengthStop offset + 4)
      rw [rangesStop, rangeStop_eq, two]
      omega
  rw [alignUp_of_mod whole.1]
  exact whole.2

theorem descriptor_priced {name description constraints : String} (range : ParameterRange)
    (offset : Nat) : alignUp 4 (descriptorStop name description constraints range offset) ≤
      alignUp 4 offset + (byteLen name + (cdrDescriptorBase + byteLen description +
        byteLen constraints)) := by
  have ranges := rangesStop_le range
    (stringStop constraints (stringStop description (stringStop name offset + 1)) + 1 + 1)
  have third := stringStop_le constraints (stringStop description (stringStop name offset + 1))
  have second := stringStop_le description (stringStop name offset + 1)
  rw [descriptorStop, cdrDescriptorBase]
  rw [cdrStr] at *
  have first : stringStop name offset = alignUp 4 offset + 4 + byteLen name + 1 := rfl
  omega

end NanoRos
