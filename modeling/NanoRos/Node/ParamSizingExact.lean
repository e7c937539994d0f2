import NanoRos.Node.ParamSizingSound

/-! Where the derived bound is exceeded: arrays whose bytes, filled up to a word, put every value
after the first on a word boundary. -/

namespace NanoRos

open CdrWriter

variable {α : Type}

theorem writeSequence_runs {write : CdrWriter → α → Except SerError CdrWriter}
    {stop : α → Nat → Nat} {items : List α} (small : items.length ≤ u32Max)
    (each : ∀ item ∈ items, Runs (fun w => write w item) (stop item)) :
    Runs (fun w => writeSequence write w items)
      (fun offset => placed stop items (alignUp 4 offset + 4)) :=
  (writeSequenceLen_runs small).bind (foldlM_runs each)

theorem writeSequence_congr {write write' : CdrWriter → α → Except SerError CdrWriter}
    {items : List α} (same : ∀ item ∈ items, ∀ w, write w item = write' w item) (w : CdrWriter) :
    writeSequence write w items = writeSequence write' w items := by
  rw [writeSequence, writeSequence]
  congr 1
  funext w
  induction items generalizing w with
  | nil => rfl
  | cons item items ih =>
    rw [List.foldlM_cons, List.foldlM_cons, same item List.mem_cons_self]
    congr 1
    funext w
    exact ih (fun item member => same item (List.mem_cons_of_mem _ member)) w

theorem emptyString_runs : Runs (fun w => w.writeString "") (stringStop "") :=
  writeString_runs (by decide +kernel)

theorem writeByteArray_runs {v : List UInt8} (small : v.length ≤ u32Max) :
    Runs (fun w => writeParameterValue w (.byteArray v)) (valueStop (.byteArray v)) := by
  have none : Runs (fun w => w.writeSequenceLen 0) lengthStop :=
    writeSequenceLen_runs (Nat.zero_le _)
  have some : Runs (fun w => writeSequence CdrWriter.writeU8 w v)
      (fun o => lengthStop o + v.length) := by
    have runs := writeSequence_runs small fun b (_ : b ∈ v) => writeU8_runs b
    simp only [bytes_placed] at runs
    exact runs
  have runs := (writeU8_runs 5).bind <| (writeBool_runs false).bind <| (writeI64_runs 0).bind <|
    (writeF64_runs ⟨0⟩).bind <| emptyString_runs.bind <| some.bind <| none.bind <| none.bind <|
      none.bind none
  exact runs

theorem writeBoolArray_runs {v : List Bool} (small : v.length ≤ u32Max) :
    Runs (fun w => writeParameterValue w (.boolArray v)) (valueStop (.boolArray v)) := by
  have none : Runs (fun w => w.writeSequenceLen 0) lengthStop :=
    writeSequenceLen_runs (Nat.zero_le _)
  have some : Runs (fun w => writeSequence CdrWriter.writeBool w v)
      (fun o => lengthStop o + v.length) := by
    have runs := writeSequence_runs small fun b (_ : b ∈ v) => writeBool_runs b
    simp only [bytes_placed] at runs
    exact runs
  have runs := (writeU8_runs 6).bind <| (writeBool_runs false).bind <| (writeI64_runs 0).bind <|
    (writeF64_runs ⟨0⟩).bind <| emptyString_runs.bind <| none.bind <| some.bind <| none.bind <|
      none.bind none
  exact runs

/-! Eight parameters of one value. -/

def letters : List String := ["a", "b", "c", "d", "e", "f", "g", "h"]

def letterEntry (value : ParameterValue) (name : String) : ParameterEntry :=
  ⟨0, ⟨name, value⟩, none⟩

def lettersStore (value : ParameterValue) : ParameterServer :=
  .newIn (letters.map fun name => some (letterEntry value name))

def lettersRequest : CdrReader :=
  let encoded (letter : UInt8) : List UInt8 := [2, 0, 0, 0, letter, 0, 0, 0]
  ⟨[0, 1, 0, 0] ++ [8, 0, 0, 0] ++ ([97, 98, 99, 100, 101, 102, 103, 104].flatMap encoded),
    4, 4, .xcdr1⟩

section

variable (value : ParameterValue)

theorem letters_declared : (lettersStore value).declared 0 = letters.map (letterEntry value) := rfl

theorem lettersStore_valid : (lettersStore value).Valid where
  counted := rfl
  distinct := by
    intro i j a b first second same
    have entries : (lettersStore value).entries =
        letters.map fun name => some (letterEntry value name) := rfl
    rw [entries, List.getElem?_map] at first second
    obtain ⟨name, here, is⟩ := Option.map_eq_some_iff.mp first
    obtain ⟨name', there, is'⟩ := Option.map_eq_some_iff.mp second
    cases is
    cases is'
    have names : name = name' := congrArg Prod.snd same
    subst names
    have distinct : letters.Nodup := by decide +kernel
    have inside := (List.getElem?_eq_some_iff.mp here).1
    exact (List.getElem?_inj inside distinct).mp (here.trans there.symm)

theorem letters_asked : AsksFor lettersRequest ((lettersStore value).declared 0) := by
  have decoded : (NamesRequest.deserialize lettersRequest).toOption.map
      (fun read => read.1.names.items.map WireString.text) = some letters := by decide +kernel
  cases read : NamesRequest.deserialize lettersRequest with
  | error e =>
    rw [read] at decoded
    cases decoded
  | ok answer =>
    rw [read] at decoded
    exact ⟨answer.1, answer.2, read, Option.some.inj decoded⟩

end

theorem placed_arrays {value : ParameterValue} {data : Nat} (odd : data % 8 = 4)
    (stops : ∀ offset, valueStop value offset = wordStart offset + 44 + data)
    (names : List String) {offset : Nat} (even : offset % 8 = 0) :
    placed (fun _ => valueStop value) names offset = offset + names.length * (52 + data) := by
  induction names generalizing offset with
  | nil => rw [List.length_nil, Nat.zero_mul]; rfl
  | cons name names ih =>
    have next : valueStop value offset = offset + (52 + data) := by
      rw [stops, wordStart, alignUp, padding]
      omega
    rw [placed, List.foldl_cons, ← placed, next, ih (by omega), List.length_cons, Nat.succ_mul]
    omega

theorem letters_placed {value : ParameterValue} {data : Nat} (odd : data % 8 = 4)
    (stops : ∀ offset, valueStop value offset = wordStart offset + 44 + data) :
    placed (fun _ => valueStop value) letters 4 = 416 + 8 * data := by
  have first : valueStop value 4 = 52 + data := by
    rw [stops, wordStart, alignUp, padding]
  rw [letters, placed, List.foldl_cons, ← placed, first, placed_arrays odd stops _ (by omega)]
  simp only [List.length_cons, List.length_nil]
  omega

theorem letters_reply {value : ParameterValue} (fits : valueFitsWire value = true)
    (runs : Runs (fun w => writeParameterValue w value) (valueStop value)) :
    ∃ buf w w', CdrWriter.newWithHeader buf = .ok w ∧
      streamGetParameters (lettersStore value) 0 lettersRequest w = .ok w' ∧
      w'.pos = 4 + placed (fun _ => valueStop value) letters 4 := by
  obtain ⟨request, last, decoded, named⟩ := letters_asked value
  have names : (letters.map (letterEntry value)).map ParameterEntry.name = letters := rfl
  rw [letters_declared, names] at named
  have sequence := @writeSequence_runs String (fun w _ => writeParameterValue w value)
    (fun _ => valueStop value) letters (by decide) fun _ _ => runs
  generalize bytes : List.replicate (4 + placed (fun _ => valueStop value) letters 4)
    (0 : UInt8) = buf
  have long : buf.length = 4 + placed (fun _ => valueStop value) letters 4 := by
    rw [← bytes, List.length_replicate]
  have opened : CdrWriter.newWithHeader buf =
      .ok ⟨Memory.overwrite buf 0 cdrLeHeader, 4, 4, .xcdr1, false⟩ := by
    rw [CdrWriter.newWithHeader, if_neg (by omega)]
  have free : CdrWriter.Open ⟨Memory.overwrite buf 0 cdrLeHeader, 4, 4, .xcdr1, false⟩
      (4 + placed (fun _ => valueStop value) letters 4) := by
    refine ⟨rfl, ?_⟩
    rw [Memory.length_overwrite _ _ _ (by rw [long]; exact Nat.add_le_add_left (Nat.zero_le _) 4)]
    exact long
  have start := newWithHeader_at opened
  obtain ⟨w', written, _⟩ := sequence.succeeds _ _ _ start free (Nat.le_refl _)
  refine ⟨buf, _, w', opened, ?_, (sequence.stops _ _ _ start written).pos⟩
  rw [streamGetParameters, streamByName_names decoded named]
  apply serFailed_eq_ok.mpr
  rw [← written]
  apply writeSequence_congr
  intro name member w
  have declared : letterEntry value name ∈ (lettersStore value).declared 0 :=
    List.mem_map.mpr ⟨name, member, rfl⟩
  have held := ParameterServer.entryOf_declared (lettersStore_valid value) declared
  have entry : (lettersStore value).get 0 name = some value := by
    rw [ParameterServer.get]
    exact congrArg _ held
  rw [entry, Option.filter, if_pos fits]

/-- The capacities are up to what a wire message can carry. -/
structure ParamWireCaps.WithinWire (caps : ParamWireCaps) : Prop where
  string : caps.string ≤ wireStringCap
  array : caps.array ≤ wireSeqCap
  byteArray : caps.byteArray ≤ wireSeqCap
  description : caps.description ≤ wireStringCap
  constraints : caps.constraints ≤ wireStringCap

theorem not_boundSound {caps : ParamWireCaps} {shape : ParamServiceShape} {value : ParameterValue}
    {capacity : Nat} (unpriced : Unpriced capacity)
    (stops : ∀ offset, valueStop value offset = wordStart offset + 44 + alignUp 4 capacity)
    (fits : valueFitsWire value = true) (within : value.Within caps)
    (runs : Runs (fun w => writeParameterValue w value) (valueStop value))
    (counted : shape.Matches ((lettersStore value).declared 0))
    (priced : (nodeBound shape caps).getReply = 435 + 8 * capacity) : ¬ BoundSound caps := by
  intro sound
  have stores : (lettersStore value).StoresWithin 0 caps := by
    refine ⟨?_, ?_⟩
    · intro entry member
      rw [letters_declared] at member
      obtain ⟨name, _, rfl⟩ := List.mem_map.mp member
      exact within
    · intro entry member desc held
      rw [letters_declared] at member
      obtain ⟨name, _, rfl⟩ := List.mem_map.mp member
      cases held
  obtain ⟨covers, _⟩ := sound [shape] shape List.mem_cons_self defaultCaps (lettersStore value) 0
    (lettersStore_valid value) counted stores
  obtain ⟨buf, w, w', opened, written, ends⟩ := letters_reply fits runs
  have least := covers.getReply _ (List.Subperm.refl _) _ (letters_asked value) buf w w' opened
    written
  have bound : (paramServiceBound [shape] caps).getReply = (nodeBound shape caps).getReply :=
    Nat.zero_max _
  have filled := le_alignUp 4 capacity
  have gap := alignUp_lt (by decide : 0 < 4) capacity
  have whole := alignUp_mod (by decide : 0 < 4) capacity
  rw [Unpriced] at unpriced
  rw [ends, letters_placed (by omega) stops, bound, priced] at least
  omega

theorem letters_names (value : ParameterValue) :
    (((lettersStore value).declared 0).map fun entry => byteLen entry.name).sum = 8 ∧
      declaredPrefixes ((lettersStore value).declared 0) = [] := by
  have sizes : (letters.map byteLen).sum = 8 := by decide +kernel
  have flat : letters.filterMap namePrefix = [] := by decide +kernel
  have starts : (letters.map (letterEntry value)).filterMap (fun entry => namePrefix entry.name) =
      letters.filterMap namePrefix := List.filterMap_map
  rw [letters_declared, declaredPrefixes, starts, flat, List.map_map]
  exact ⟨sizes, rfl⟩

theorem letters_matches {value : ParameterValue} {strings byteArrays boolArrays wordArrays
    stringArrays : Nat} {types : List ParameterType}
    (typed : types = List.replicate 8 value.paramType) (strings' : types.count .string = strings)
    (byteArrays' : types.count .byteArray = byteArrays)
    (boolArrays' : types.count .boolArray = boolArrays)
    (wordArrays' : types.count .integerArray + types.count .doubleArray = wordArrays)
    (stringArrays' : types.count .stringArray = stringArrays) :
    ParamServiceShape.Matches ⟨8, 8, 0, 0, strings, byteArrays, boolArrays, wordArrays,
      stringArrays⟩ ((lettersStore value).declared 0) := by
  obtain ⟨names, flat⟩ := letters_names value
  have same : ((lettersStore value).declared 0).map ParameterEntry.paramType = types := typed ▸ rfl
  refine ⟨rfl, names, ?_, ?_, ?_, ?_, ?_, ?_, ?_⟩
  · rw [flat]
    rfl
  · rw [flat]
    rfl
  all_goals rw [same]; assumption

theorem not_boundSound_bytes {caps : ParamWireCaps} (wire : caps.byteArray ≤ wireSeqCap)
    (unpriced : Unpriced caps.byteArray) : ¬ BoundSound caps := by
  generalize filled : List.replicate caps.byteArray (0 : UInt8) = v
  have length : v.length = caps.byteArray := by rw [← filled, List.length_replicate]
  apply @not_boundSound caps ⟨8, 8, 0, 0, 0, 8, 0, 0, 0⟩ (.byteArray v) caps.byteArray unpriced
  · intro offset
    rw [valueStop_byteArray, length]
  · exact decide_eq_true (length.trans_le wire)
  · exact length.le
  · apply writeByteArray_runs
    rw [length]
    exact wire.trans (by decide)
  · exact letters_matches rfl rfl rfl rfl rfl rfl
  · simp only [nodeBound, cdrHeader, cdrSeq, cdrValueBase]
    omega

theorem not_boundSound_bools {caps : ParamWireCaps} (wire : caps.array ≤ wireSeqCap)
    (unpriced : Unpriced caps.array) : ¬ BoundSound caps := by
  generalize filled : List.replicate caps.array false = v
  have length : v.length = caps.array := by rw [← filled, List.length_replicate]
  apply @not_boundSound caps ⟨8, 8, 0, 0, 0, 0, 8, 0, 0⟩ (.boolArray v) caps.array unpriced
  · intro offset
    rw [valueStop_boolArray, length]
  · exact decide_eq_true (length.trans_le wire)
  · exact length.le
  · apply writeBoolArray_runs
    rw [length]
    exact wire.trans (by decide)
  · exact letters_matches rfl rfl rfl rfl rfl rfl
  · simp only [nodeBound, cdrHeader, cdrSeq, cdrValueBase]
    omega

end NanoRos
