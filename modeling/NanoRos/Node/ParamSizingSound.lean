import NanoRos.Node.ParamSizingBound
import NanoRos.Node.StreamingOracle

/-! The derived bound against the messages of the six services: for which capacities it holds. -/

namespace NanoRos

open CdrWriter

variable {α ε : Type}

/-- Behind its header, the message has at most so many bytes. -/
def WrittenWithin (write : CdrWriter → Except ε CdrWriter) (bound : Nat) : Prop :=
  ∀ (buf : List UInt8) (w w' : CdrWriter), CdrWriter.newWithHeader buf = .ok w →
    write w = .ok w' → w'.pos ≤ bound

theorem WrittenWithin.mono {write : CdrWriter → Except ε CdrWriter} {bound bound' : Nat}
    (within : WrittenWithin write bound) (le : bound ≤ bound') : WrittenWithin write bound' :=
  fun buf w w' opened written => (within buf w w' opened written).trans le

theorem WrittenWithin.of_stops {write : CdrWriter → Except SerError CdrWriter} {stop : Nat → Nat}
    (stops : Stops write stop) : WrittenWithin write (cdrHeader + stop 0) := by
  intro buf w w' opened written
  have ends := (stops _ _ _ (newWithHeader_at opened) written).pos
  rw [cdrHeader, ends]

theorem WrittenWithin.serFailed {write : CdrWriter → Except SerError CdrWriter} {bound : Nat}
    (within : WrittenWithin write bound) :
    WrittenWithin (fun w => NanoRos.serFailed (write w)) bound := by
  intro buf w w' opened written
  exact within buf w w' opened (serFailed_eq_ok.mp written)

/-! Sums over the parameters a message is about. -/

theorem sum_le_of_subperm (price : α → Nat) {asked declared : List α}
    (about : asked.Subperm declared) : (asked.map price).sum ≤ (declared.map price).sum := by
  obtain ⟨inside, perm, sublist⟩ := about
  rw [← (perm.map price).sum_eq]
  exact (sublist.map price).sum_le_sum fun _ _ => Nat.zero_le _

theorem subperm_map {β : Type} (f : α → β) {asked declared : List α}
    (about : asked.Subperm declared) : (asked.map f).Subperm (declared.map f) := by
  obtain ⟨inside, perm, sublist⟩ := about
  exact ⟨inside.map f, perm.map f, sublist.map f⟩

theorem sum_add_const (price : α → Nat) (each : Nat) (items : List α) :
    (items.map fun item => each + price item).sum =
      (items.map price).sum + items.length * each := by
  rw [List.sum_map_add, List.map_const', List.sum_replicate, smul_eq_mul]
  omega

theorem sum_dataPrice (caps : ParamWireCaps) (types : List ParameterType) :
    (types.map (dataPrice caps)).sum = types.count .string * caps.string +
      types.count .byteArray * caps.byteArray + types.count .boolArray * caps.array +
      (types.count .integerArray + types.count .doubleArray) * (7 + 8 * caps.array) +
      types.count .stringArray * caps.array * (cdrStr + caps.string) := by
  induction types with
  | nil => simp
  | cons ty types ih =>
    rw [List.map_cons, List.sum_cons, ih]
    cases ty <;> simp [dataPrice] <;> ring

/-! A reply with an answer for each name. -/

theorem sequence_within {write : CdrWriter → α → Except SerError CdrWriter}
    {stop : α → Nat → Nat} {price : α → Nat} {items : List α}
    (stops : ∀ item ∈ items, Stops (fun w => write w item) (stop item)) {measure : Nat → Nat}
    (low : ∀ offset, offset ≤ measure offset) (start : measure 4 ≤ cdrSeq)
    (priced : ∀ item ∈ items, ∀ offset, measure (stop item offset) ≤ measure offset + price item) :
    WrittenWithin (fun w => writeSequence write w items)
      (cdrHeader + cdrSeq + (items.map price).sum) := by
  apply (WrittenWithin.of_stops (writeSequence_stops stops)).mono
  have first : alignUp 4 0 + 4 = 4 := rfl
  have reached := placed_le measure priced 4
  have last := low (placed stop items 4)
  rw [first]
  omega

theorem streamByName_names {answer : String → CdrWriter → Except SerError CdrWriter}
    {r last : CdrReader} {request : NamesRequest} {names : List String}
    (decoded : NamesRequest.deserialize r = .ok (request, last))
    (named : request.names.items.map WireString.text = names) (w : CdrWriter) :
    streamByName answer r w = serFailed (writeSequence (fun w name => answer name w) w names) := by
  have texts := @writeSequence_map WireString String WireString.text
    (fun w name => answer name w) w request.names.items
  rw [streamByName_eq decoded, texts, named]

theorem byName_within {answer : String → CdrWriter → Except SerError CdrWriter}
    {stop : ParameterEntry → Nat → Nat} {price : ParameterEntry → Nat}
    {asked : List ParameterEntry} {r last : CdrReader} {request : NamesRequest}
    (decoded : NamesRequest.deserialize r = .ok (request, last))
    (named : request.names.items.map WireString.text = asked.map ParameterEntry.name)
    (stops : ∀ entry ∈ asked, Stops (answer entry.name) (stop entry)) {measure : Nat → Nat}
    (low : ∀ offset, offset ≤ measure offset) (start : measure 4 ≤ cdrSeq)
    (priced : ∀ entry ∈ asked, ∀ offset,
      measure (stop entry offset) ≤ measure offset + price entry) :
    WrittenWithin (streamByName answer r) (cdrHeader + cdrSeq + (asked.map price).sum) := by
  have reply : streamByName answer r = fun w => serFailed
      (writeSequence (fun w entry => answer (ParameterEntry.name entry) w) w asked) := by
    funext w
    have names := @writeSequence_map ParameterEntry String ParameterEntry.name
      (fun w name => answer name w) w asked
    rw [streamByName_names decoded named, ← names]
  rw [reply]
  exact (sequence_within stops low start priced).serFailed

/-! The parameters of a node. -/

section

variable {s : ParameterServer} {node : NodeKey} {caps : ParamWireCaps} {entry : ParameterEntry}

theorem ParameterServer.mem_declared : entry ∈ s.declared node ↔
    (∃ i : Nat, s.entries[i]? = some (some entry)) ∧ entry.node = node := by
  have held : some entry ∈ s.entries ↔ ∃ i : Nat, s.entries[i]? = some (some entry) :=
    List.mem_iff_getElem?
  rw [← held]
  simp [declared]

theorem ParameterServer.entryOf_declared (valid : s.Valid) (member : entry ∈ s.declared node) :
    s.entryOf node entry.name = some entry := by
  obtain ⟨⟨i, held⟩, here⟩ := mem_declared.mp member
  apply (KeyedSlots.lookup_eq_some valid.distinct).mpr
  exact ⟨i, held, by rw [ParameterEntry.key, here, ParameterEntry.name]⟩

/-- What the store holds is within the capacities. -/
structure ParameterServer.StoresWithin (s : ParameterServer) (node : NodeKey)
    (caps : ParamWireCaps) : Prop where
  value : ∀ entry ∈ s.declared node, entry.param.value.Within caps
  descriptor : ∀ entry ∈ s.declared node, ∀ desc, entry.descriptor = some desc →
    entry.Described caps desc

/-- The value a get reply carries for a parameter. -/
def ParameterEntry.sent (entry : ParameterEntry) : ParameterValue :=
  if valueFitsWire entry.param.value then entry.param.value else .notSet

variable {asked : List ParameterEntry} {r last : CdrReader} {request : NamesRequest}

theorem getReply_within (valid : s.Valid) (stores : s.StoresWithin node caps)
    (bytes : ¬ Unpriced caps.byteArray) (bools : ¬ Unpriced caps.array)
    (about : asked ⊆ s.declared node) (decoded : NamesRequest.deserialize r = .ok (request, last))
    (named : request.names.items.map WireString.text = asked.map ParameterEntry.name) :
    WrittenWithin (streamGetParameters s node r)
      (cdrHeader + cdrSeq + (asked.map fun entry => valuePrice caps entry.paramType).sum) := by
  apply @byName_within _ (fun entry => valueStop entry.sent) _ asked r last request decoded named
    _ reach le_reach (by decide)
  · intro entry member offset
    have within := stores.value entry (about member)
    have price := value_priced bytes bools within offset
    unfold ParameterEntry.sent
    split
    · exact price
    · have unset := @value_priced caps .notSet bytes bools trivial offset
      exact unset.trans (Nat.add_le_add_left (Nat.le_add_right _ _) _)
  · intro entry member
    have held := ParameterServer.entryOf_declared valid (about member)
    have stops := writeParameterValue_stops entry.sent
    rw [ParameterServer.get, held]
    unfold ParameterEntry.sent at *
    cases fits : valueFitsWire entry.param.value <;> simp [fits, Option.filter] at stops ⊢ <;>
      exact stops

theorem writeDescriptor_stops (desc : ParameterDescriptor) :
    Stops (fun w => writeDescriptor w desc) (descriptorStop (fitOrEmpty desc.name)
      (fitOrEmpty desc.description) (fitOrEmpty desc.additionalConstraints) desc.range) := by
  have members {ranges : CdrWriter → Except SerError CdrWriter} {stop : Nat → Nat}
      (rest : Stops ranges stop) :=
    (writeString_stops (fitOrEmpty desc.name)).bind <|
      (writeU8_stops (typeToU8 desc.paramType)).bind <|
      (writeString_stops (fitOrEmpty desc.description)).bind <|
      (writeString_stops (fitOrEmpty desc.additionalConstraints)).bind <|
      (writeBool_stops desc.readOnly).bind <| (writeBool_stops desc.dynamicTyping).bind rest
  have none : Stops (fun w => w.writeSequenceLen 0) lengthStop := writeSequenceLen_stops 0
  have some : Stops (fun w => w.writeSequenceLen 1) lengthStop := writeSequenceLen_stops 1
  unfold writeDescriptor descriptorStop
  cases desc.range with
  | none =>
    have stops := members (none.bind none)
    exact stops
  | floatingPoint range =>
    have stops := members <| some.bind <| (writeF64_stops range.min).bind <|
      (writeF64_stops range.max).bind <| (writeF64_stops range.step).bind none
    exact stops
  | integer range =>
    have stops := members <| none.bind <| some.bind <| (writeI64_stops range.min).bind <|
      (writeI64_stops range.max).bind <| writeU64_stops range.step.toUInt64
    exact stops

theorem writeMinimalDescriptor_stops (name : String) (code : UInt8) :
    Stops (fun w => writeMinimalDescriptor w name code)
      (descriptorStop (fitOrEmpty name) "" "" .none) :=
  (writeString_stops (fitOrEmpty name)).bind <| (writeU8_stops code).bind <|
    (writeString_stops "").bind <| (writeString_stops "").bind <| (writeBool_stops false).bind <|
    (writeBool_stops false).bind <| (writeSequenceLen_stops 0).bind (writeSequenceLen_stops 0)

/-- Where the answer to a describe request stops. -/
def ParameterEntry.describedStop (entry : ParameterEntry) : Nat → Nat :=
  match entry.descriptor with
  | some desc => descriptorStop (fitOrEmpty desc.name) (fitOrEmpty desc.description)
      (fitOrEmpty desc.additionalConstraints) desc.range
  | none => descriptorStop (fitOrEmpty entry.name) "" "" .none

theorem describeReply_within (valid : s.Valid) (stores : s.StoresWithin node caps)
    (about : asked ⊆ s.declared node) (decoded : NamesRequest.deserialize r = .ok (request, last))
    (named : request.names.items.map WireString.text = asked.map ParameterEntry.name) :
    WrittenWithin (streamDescribeParameters s node r) (cdrHeader + cdrSeq + (asked.map fun entry =>
      byteLen entry.name + (cdrDescriptorBase + caps.description + caps.constraints)).sum) := by
  apply @byName_within _ ParameterEntry.describedStop _ asked r last request decoded named
    _ (alignUp 4) (le_alignUp 4) (by decide)
  · intro entry member offset
    unfold ParameterEntry.describedStop
    cases descriptor : entry.descriptor with
    | none =>
      have priced := @descriptor_priced (fitOrEmpty entry.name) "" "" .none offset
      have name := byteLen_fitOrEmpty entry.name
      rw [byteLen_empty] at priced
      dsimp only
      omega
    | some desc =>
      have described := stores.descriptor entry (about member) desc descriptor
      have priced := @descriptor_priced (fitOrEmpty desc.name) (fitOrEmpty desc.description)
        (fitOrEmpty desc.additionalConstraints) desc.range offset
      have name := byteLen_fitOrEmpty desc.name
      have description := byteLen_fitOrEmpty desc.description
      have constraints := byteLen_fitOrEmpty desc.additionalConstraints
      have short := described.description
      have brief := described.constraints
      rw [described.name] at name
      rw [described.name] at priced
      dsimp only
      rw [described.name]
      omega
  · intro entry member
    have held := ParameterServer.entryOf_declared valid (about member)
    unfold ParameterEntry.describedStop
    rw [ParameterServer.getDescriptor, ParameterServer.getParameter, held, Option.bind_some]
    cases descriptor : entry.descriptor with
    | none => exact writeMinimalDescriptor_stops entry.name _
    | some desc => exact writeDescriptor_stops desc

theorem typesReply_within (decoded : NamesRequest.deserialize r = .ok (request, last))
    (named : request.names.items.map WireString.text = asked.map ParameterEntry.name) :
    WrittenWithin (streamGetParameterTypes s node r) (cdrHeader + cdrSeq + asked.length) := by
  have within := @byName_within (fun name w =>
      w.writeU8 (((s.getType node name).map typeToU8).getD 0)) (fun _ offset => offset + 1)
    (fun _ => 1) asked r last request decoded named (fun entry _ => writeU8_stops _) id
    (fun _ => Nat.le_refl _) (by decide) (fun _ _ _ => Nat.le_refl _)
  rw [List.map_const', List.sum_replicate, smul_eq_mul, Nat.mul_one] at within
  exact within

/-! Requests. -/

def writeNames (w : CdrWriter) (names : List String) : Except SerError CdrWriter :=
  writeSequence CdrWriter.writeString w names

def writeListRequest (w : CdrWriter) (prefixes : List String) (depth : UInt64) :
    Except SerError CdrWriter := do
  let w ← writeNames w prefixes
  w.writeU64 depth

def writeSetItem (w : CdrWriter) (item : String × ParameterValue) : Except SerError CdrWriter := do
  let w ← w.writeString item.1
  writeParameterValue w item.2

def writeSetRequest (w : CdrWriter) (items : List (String × ParameterValue)) :
    Except SerError CdrWriter := writeSequence writeSetItem w items

theorem stringPrices_le (strings : List String) (offset : Nat) :
    placed stringStop strings offset ≤
      offset + ((strings.map byteLen).sum + strings.length * cdrStr) := by
  have reached := placed_le id (fun s (_ : s ∈ strings) o => stringStop_le s o) offset
  rw [sum_add_const] at reached
  exact reached

theorem writeNames_stops (names : List String) :
    Stops (fun w => writeNames w names) (fun offset => placed stringStop names (lengthStop offset)) :=
  writeSequence_stops fun name _ => writeString_stops name

theorem namesRequest_within (names : List String) : WrittenWithin (fun w => writeNames w names)
    (cdrHeader + cdrSeq + ((names.map byteLen).sum + names.length * cdrStr)) := by
  apply (WrittenWithin.of_stops (writeNames_stops names)).mono
  have first : lengthStop 0 = 4 := rfl
  have reached := stringPrices_le names 4
  rw [first, cdrSeq]
  omega

theorem listRequest_within (prefixes : List String) (depth : UInt64) :
    WrittenWithin (fun w => writeListRequest w prefixes depth)
      (cdrHeader + cdrSeq + ((prefixes.map byteLen).sum + prefixes.length * cdrStr) +
        ParamSizing.cdrWord) := by
  have stops := (writeNames_stops prefixes).bind (writeU64_stops depth)
  apply (WrittenWithin.of_stops stops).mono
  have first : lengthStop 0 = 4 := rfl
  have reached := stringPrices_le prefixes 4
  have filled := alignUp_lt (by decide : 0 < 8) (placed stringStop prefixes 4)
  rw [first, cdrSeq, ParamSizing.cdrWord]
  omega

/-- A new value for a parameter, of the parameter's type. -/
structure ParameterEntry.Offered (caps : ParamWireCaps) (entry : ParameterEntry)
    (value : ParameterValue) : Prop where
  sameType : value.paramType = entry.paramType
  within : value.Within caps

theorem setRequest_within {offers : List (ParameterEntry × ParameterValue)}
    (offered : ∀ offer ∈ offers, offer.1.Offered caps offer.2) :
    WrittenWithin
      (fun w => writeSetRequest w (offers.map fun offer => (offer.1.name, offer.2)))
      (cdrHeader + cdrSeq + ((offers.map Prod.fst).map fun entry =>
        cdrStr + byteLen entry.name + valuePrice caps entry.paramType).sum) := by
  have request : (fun w => writeSetRequest w (offers.map fun offer => (offer.1.name, offer.2))) =
      fun w => writeSequence (fun w offer => writeSetItem w (offer.1.name, offer.2)) w offers :=
    funext fun w => (@writeSequence_map (ParameterEntry × ParameterValue) (String × ParameterValue)
      (fun offer => (offer.1.name, offer.2)) writeSetItem w offers).symm
  rw [request, List.map_map]
  apply @sequence_within _ _ (fun offer offset => valueStop offer.2 (stringStop offer.1.name offset))
    _ _ _ (alignUp 4) (le_alignUp 4) (by decide)
  · intro offer member offset
    have priced := named_priced (offered offer member).within offer.1.name offset
    rw [(offered offer member).sameType] at priced
    exact priced
  · intro offer member
    exact (writeString_stops offer.1.name).bind (writeParameterValue_stops offer.2)

/-! Results. -/

theorem byteLen_setResultReason (verdict : Except ParameterError Unit) :
    byteLen (setResultReason verdict) ≤ longestSetReason := by
  cases verdict with
  | ok done =>
    cases done
    decide +kernel
  | error e => cases e <;> decide +kernel

theorem byteLen_conversionReason (e : ConversionError) : byteLen e.reason ≤ longestSetReason := by
  cases e with
  | capacityExceeded => decide +kernel
  | unknownType code =>
    have same : (ConversionError.unknownType code).reason =
      (ConversionError.unknownType 0).reason := rfl
    rw [same]
    decide +kernel

theorem writeSetResult_ends {w w' : CdrWriter} {successful : Bool} {reason : String}
    {offset : Nat} (start : w.At offset) (written : writeSetResult w successful reason = .ok w') :
    ∃ stop, w'.At stop ∧ stop ≤ offset + (1 + cdrStr + byteLen reason) := by
  have stops := (writeBool_stops successful).bind (writeString_stops (fitOrEmpty reason))
  refine ⟨stringStop (fitOrEmpty reason) (offset + 1), stops w w' offset start written, ?_⟩
  have text := stringStop_le (fitOrEmpty reason) (offset + 1)
  have short := byteLen_fitOrEmpty reason
  omega

section

variable {pcaps : ParamCaps}

theorem setOne_reason (name : String) (value : Except ConversionError ParameterValue) :
    byteLen (setOne pcaps s node name value).1.2 ≤ longestSetReason := by
  rw [setOne]
  split
  · exact byteLen_conversionReason _
  · exact byteLen_setResultReason _

theorem streamSetLoop_ends {n : Nat} {r : CdrReader} {w w' : CdrWriter} {offset : Nat}
    (start : w.At offset) (answered : (streamSetLoop pcaps node n s r w).2 = .ok w') :
    ∃ stop, w'.At stop ∧ stop ≤ offset + n * (1 + cdrStr + longestSetReason) := by
  induction n generalizing s r w offset with
  | zero =>
    cases answered
    exact ⟨offset, start, Nat.le_add_right _ _⟩
  | succ n ih =>
    rw [streamSetLoop] at answered
    split at answered
    · cases answered
    · rename_i name value next _
      dsimp only at answered
      split at answered
      · cases answered
      · rename_i written
        obtain ⟨middle, here, most⟩ := writeSetResult_ends start written
        obtain ⟨stop, last, further⟩ := ih here answered
        have short := @setOne_reason s node pcaps name value
        have bounded := most.trans (Nat.add_le_add_left (Nat.add_le_add_left short _) _)
        refine ⟨stop, last, ?_⟩
        rw [Nat.succ_mul]
        omega

theorem setReply_within {r last : CdrReader} {request : SetParametersRequest}
    (decoded : SetParametersRequest.deserialize r = .ok (request, last)) :
    WrittenWithin (fun w => (streamSetParameters pcaps s node r w).2)
      (cdrHeader + cdrSeq + request.parameters.items.length * (1 + cdrStr + longestSetReason)) := by
  rw [SetParametersRequest.deserialize] at decoded
  obtain ⟨⟨params, last'⟩, read, done⟩ := bind_eq_ok.mp decoded
  cases done
  obtain ⟨first, counted, _⟩ := deserializeVec_eq_ok read
  intro buf w w' opened answered
  dsimp only at answered
  rw [streamSetParameters, counted] at answered
  dsimp only at answered
  split at answered
  · cases answered
  · rename_i begun
    have here : CdrWriter.At _ 4 :=
      writeSequenceLen_stops _ _ _ _ (newWithHeader_at opened) begun
    obtain ⟨stop, ends, most⟩ := streamSetLoop_ends here answered
    rw [ends.pos, cdrHeader, cdrSeq]
    dsimp only
    omega

theorem atomicReply_within (r : CdrReader) :
    WrittenWithin (fun w => (streamSetParametersAtomically pcaps s node r w).2)
      (cdrHeader + 1 + cdrStr + byteLen atomicFailureReason) := by
  intro buf w w' opened answered
  have ends {successful : Bool} {reason : String}
      (short : byteLen reason ≤ byteLen atomicFailureReason)
      (written : serFailed (writeSetResult w successful reason) = .ok w') :
      w'.pos ≤ cdrHeader + 1 + cdrStr + byteLen atomicFailureReason := by
    obtain ⟨stop, last, most⟩ :=
      writeSetResult_ends (newWithHeader_at opened) (serFailed_eq_ok.mp written)
    rw [last.pos, cdrHeader]
    omega
  dsimp only at answered
  unfold streamSetParametersAtomically at answered
  repeat' split at answered
  all_goals first
    | cases answered
    | exact ends (by decide +kernel) answered

end

/-! The list reply. -/

theorem ListScan.note_prefixes {scan : ListScan} (distinct : scan.prefixes.Nodup) (name : String) :
    (scan.note name).prefixes.Nodup ∧ ∀ start ∈ (scan.note name).prefixes,
      start ∈ scan.prefixes ∨ namePrefix name = some start := by
  have named : scan.noteName.prefixes = scan.prefixes := by
    rw [noteName]
    split <;> rfl
  rw [note]
  cases found : namePrefix name with
  | none =>
    dsimp only
    rw [named]
    exact ⟨distinct, fun start member => Or.inl member⟩
  | some first =>
    dsimp only
    rw [notePrefix, named]
    split
    · rw [named]
      exact ⟨distinct, fun start member => Or.inl member⟩
    · rename_i fresh
      split
      · dsimp only
        refine ⟨?_, ?_⟩
        · rw [← List.concat_eq_append]
          exact distinct.concat fun member => fresh (List.contains_iff_mem.mpr member)
        · intro start member
          rw [List.mem_append, List.mem_singleton] at member
          obtain member | rfl := member
          · exact Or.inl member
          · exact Or.inr rfl
      · dsimp only
        exact ⟨distinct, fun start member => Or.inl member⟩

theorem ListScan.foldl_prefixes (names : List String) {scan : ListScan}
    (distinct : scan.prefixes.Nodup) : (names.foldl note scan).prefixes.Nodup ∧
      ∀ start ∈ (names.foldl note scan).prefixes,
        start ∈ scan.prefixes ∨ start ∈ names.filterMap namePrefix := by
  induction names generalizing scan with
  | nil => exact ⟨distinct, fun start member => Or.inl member⟩
  | cons name names ih =>
    obtain ⟨still, from_name⟩ := note_prefixes distinct name
    obtain ⟨later, known⟩ := ih still
    refine ⟨later, fun start member => ?_⟩
    obtain before | after := known start member
    · obtain here | found := from_name start before
      · exact Or.inl here
      · exact Or.inr (List.mem_filterMap.mpr ⟨name, List.mem_cons_self, found⟩)
    · obtain ⟨other, inside, found⟩ := List.mem_filterMap.mp after
      exact Or.inr (List.mem_filterMap.mpr ⟨other, List.mem_cons_of_mem _ inside, found⟩)

theorem fittedPrices_le (strings : List String) (offset : Nat) :
    placed (fun s => stringStop (fitOrEmpty s)) strings offset ≤
      offset + ((strings.map byteLen).sum + strings.length * cdrStr) := by
  have reached := placed_le id (fun s (_ : s ∈ strings) o => by
    have text := stringStop_le (fitOrEmpty s) o
    have short := byteLen_fitOrEmpty s
    exact text.trans (Nat.add_le_add_left (Nat.add_le_add_left short cdrStr) o)) offset
  rw [sum_add_const] at reached
  exact reached

theorem textPrices_le {asked declared : List String} (about : asked.Subperm declared) :
    (asked.map byteLen).sum + asked.length * cdrStr ≤
      (declared.map byteLen).sum + declared.length * cdrStr :=
  Nat.add_le_add (sum_le_of_subperm byteLen about) (Nat.mul_le_mul_right cdrStr about.length_le)

theorem listReply_within (r : CdrReader) (truncated : Bool) :
    WrittenWithin (fun w => (streamListParameters s node r w truncated).2)
      (cdrHeader + cdrSeq + ((((s.declared node).map ParameterEntry.name).map byteLen).sum +
          ((s.declared node).map ParameterEntry.name).length * cdrStr) + cdrSeq +
        (((declaredPrefixes (s.declared node)).map byteLen).sum +
          (declaredPrefixes (s.declared node)).length * cdrStr)) := by
  intro buf w w' opened answered
  dsimp only at answered
  unfold streamListParameters at answered
  split at answered
  · cases answered
  · rename_i filters depth _
    have names : (s.iter node).map Parameter.name = (s.declared node).map ParameterEntry.name :=
      List.map_map
    rw [names] at answered
    dsimp only at answered
    generalize asked : ((s.declared node).map ParameterEntry.name).filter
      (listSelected filters depth) = selected at answered
    have sublist : selected.Sublist ((s.declared node).map ParameterEntry.name) :=
      asked ▸ List.filter_sublist
    obtain ⟨distinct, known⟩ :=
      @ListScan.foldl_prefixes selected ⟨0, [], truncated⟩ List.nodup_nil
    generalize selected.foldl ListScan.note ⟨0, [], truncated⟩ = scan at *
    have stops := (writeSequenceLen_stops scan.nameCount).bind <|
      (foldlM_stops (fun name (_ : name ∈ selected.take scan.nameCount) =>
        writeString_stops (fitOrEmpty name))).bind <|
      (writeSequenceLen_stops scan.prefixes.length).bind <|
      foldlM_stops fun start (_ : start ∈ scan.prefixes) => writeString_stops (fitOrEmpty start)
    have ends := stops _ _ _ (newWithHeader_at opened) (serFailed_eq_ok.mp answered)
    have position : w'.pos = 4 + placed (fun s => stringStop (fitOrEmpty s)) scan.prefixes
        (lengthStop (placed (fun s => stringStop (fitOrEmpty s)) (selected.take scan.nameCount)
          4)) := ends.pos
    have first := fittedPrices_le (selected.take scan.nameCount) 4
    have second := fittedPrices_le scan.prefixes (lengthStop
      (placed (fun s => stringStop (fitOrEmpty s)) (selected.take scan.nameCount) 4))
    have gap := alignUp_lt (by decide : 0 < 4)
      (placed (fun s => stringStop (fitOrEmpty s)) (selected.take scan.nameCount) 4)
    have within : scan.prefixes.Subperm (declaredPrefixes (s.declared node)) := by
      apply distinct.subperm
      intro start member
      have found := (known start member).resolve_left List.not_mem_nil
      obtain ⟨name, inside, named⟩ := List.mem_filterMap.mp found
      obtain ⟨entry, held, rfl⟩ := List.mem_map.mp (sublist.subset inside)
      exact List.mem_dedup.mpr (List.mem_filterMap.mpr ⟨entry, held, named⟩)
    have prefixes := textPrices_le within
    have texts := textPrices_le ((List.take_sublist scan.nameCount selected).trans sublist).subperm
    rw [position, cdrHeader, cdrSeq]
    rw [lengthStop] at second ⊢
    omega

end

/-! The bound. -/

theorem le_foldl_max {values : List Nat} {value : Nat} (member : value ∈ values) (start : Nat) :
    value ≤ values.foldl max start := by
  have grows (values : List Nat) (start : Nat) : start ≤ values.foldl max start := by
    induction values generalizing start with
    | nil => exact Nat.le_refl _
    | cons first values ih => exact (Nat.le_max_left _ _).trans (ih (max start first))
  induction values generalizing start with
  | nil => cases member
  | cons first values ih =>
    obtain rfl | later := List.mem_cons.mp member
    · exact (Nat.le_max_right _ _).trans (grows values (max start value))
    · exact ih later (max start first)

theorem ParamServiceBound.field_le_total (b : ParamServiceBound) {field : Nat}
    (member : field ∈ b.fields) : field ≤ b.total :=
  le_foldl_max member 0

theorem nodeBound_le {field : ParamServiceBound → Nat}
    (joins : ∀ a b : ParamServiceBound, field (a.maxWith b) = max (field a) (field b))
    {shapes : List ParamServiceShape} {shape : ParamServiceShape} (member : shape ∈ shapes)
    (caps : ParamWireCaps) : field (nodeBound shape caps) ≤ field (paramServiceBound shapes caps) := by
  have folded (shapes : List ParamServiceShape) (out : ParamServiceBound) :
      field (shapes.foldl (fun out s => out.maxWith (nodeBound s caps)) out) =
        (shapes.map fun s => field (nodeBound s caps)).foldl max (field out) := by
    induction shapes generalizing out with
    | nil => rfl
    | cons s shapes ih => rw [List.foldl_cons, ih, joins, List.map_cons, List.foldl_cons]
  have inside : field (nodeBound shape caps) ∈ shapes.map fun s => field (nodeBound s caps) :=
    List.mem_map.mpr ⟨shape, member, rfl⟩
  rw [paramServiceBound, folded]
  exact le_foldl_max inside _

/-- The request's names are those of the parameters. -/
def AsksFor (r : CdrReader) (asked : List ParameterEntry) : Prop :=
  ∃ request last, NamesRequest.deserialize r = .ok (request, last) ∧
    request.names.items.map WireString.text = asked.map ParameterEntry.name

/-- The parameters of a set request are those. -/
def SetsThe (r : CdrReader) (asked : List ParameterEntry) : Prop :=
  ∃ request last, SetParametersRequest.deserialize r = .ok (request, last) ∧
    request.parameters.items.map (fun param => param.name.text) = asked.map ParameterEntry.name

/-- Every message about the node's declared parameters is within the bound's field for it. -/
structure ParamServiceBound.Covers (b : ParamServiceBound) (caps : ParamWireCaps)
    (pcaps : ParamCaps) (s : ParameterServer) (node : NodeKey) : Prop where
  namesRequest : ∀ asked : List ParameterEntry, asked.Subperm (s.declared node) →
    WrittenWithin (fun w => writeNames w (asked.map ParameterEntry.name)) b.namesRequest
  getReply : ∀ asked : List ParameterEntry, asked.Subperm (s.declared node) → ∀ r,
    AsksFor r asked → WrittenWithin (streamGetParameters s node r) b.getReply
  describeReply : ∀ asked : List ParameterEntry, asked.Subperm (s.declared node) → ∀ r,
    AsksFor r asked → WrittenWithin (streamDescribeParameters s node r) b.describeReply
  typesReply : ∀ asked : List ParameterEntry, asked.Subperm (s.declared node) → ∀ r,
    AsksFor r asked → WrittenWithin (streamGetParameterTypes s node r) b.typesReply
  listRequest : ∀ prefixes : List String, prefixes.Subperm (declaredPrefixes (s.declared node)) →
    ∀ depth, WrittenWithin (fun w => writeListRequest w prefixes depth) b.listRequest
  listReply : ∀ r truncated,
    WrittenWithin (fun w => (streamListParameters s node r w truncated).2) b.listReply
  setRequest : ∀ offers : List (ParameterEntry × ParameterValue),
    (offers.map Prod.fst).Subperm (s.declared node) →
    (∀ offer ∈ offers, offer.1.Offered caps offer.2) →
    WrittenWithin (fun w => writeSetRequest w (offers.map fun offer => (offer.1.name, offer.2)))
      b.setRequest
  setReply : ∀ asked : List ParameterEntry, asked.Subperm (s.declared node) → ∀ r, SetsThe r asked →
    WrittenWithin (fun w => (streamSetParameters pcaps s node r w).2) b.setReply
  atomicReply : ∀ asked : List ParameterEntry, asked.Subperm (s.declared node) → ∀ r,
    SetsThe r asked →
    WrittenWithin (fun w => (streamSetParametersAtomically pcaps s node r w).2) b.setReply

/-- For these capacities the bound is sound, whatever is declared and stored. -/
def BoundSound (caps : ParamWireCaps) : Prop :=
  ∀ (shapes : List ParamServiceShape), ∀ shape ∈ shapes, ∀ (pcaps : ParamCaps)
    (s : ParameterServer) (node : NodeKey), s.Valid → shape.Matches (s.declared node) →
    s.StoresWithin node caps → (paramServiceBound shapes caps).Covers caps pcaps s node ∧
      ∀ field ∈ (paramServiceBound shapes caps).fields, field ≤ (paramServiceBound shapes caps).total

section

variable {caps : ParamWireCaps} {shape : ParamServiceShape} {entries : List ParameterEntry}

theorem ParamServiceShape.Matches.names (counted : shape.Matches entries) :
    ((entries.map ParameterEntry.name).map byteLen).sum +
        (entries.map ParameterEntry.name).length * cdrStr =
      shape.nameBytes + shape.params * cdrStr := by
  rw [List.map_map, List.length_map, ← counted.nameBytes, ← counted.params]
  rfl

theorem ParamServiceShape.Matches.values (counted : shape.Matches entries) :
    (entries.map fun entry => valuePrice caps entry.paramType).sum =
      shape.params * cdrValueBase + shape.strings * caps.string +
        shape.byteArrays * caps.byteArray + shape.boolArrays * caps.array +
        shape.wordArrays * (7 + 8 * caps.array) +
        shape.stringArrays * caps.array * (cdrStr + caps.string) := by
  have data := sum_dataPrice caps (entries.map ParameterEntry.paramType)
  rw [List.map_map] at data
  have whole := sum_add_const (fun entry => dataPrice caps (ParameterEntry.paramType entry))
    cdrValueBase entries
  rw [← counted.params, ← counted.strings, ← counted.byteArrays, ← counted.boolArrays,
    ← counted.wordArrays, ← counted.stringArrays]
  rw [Function.comp_def] at data
  unfold valuePrice
  omega

theorem ParamServiceShape.Matches.covers (bytes : ¬ Unpriced caps.byteArray)
    (bools : ¬ Unpriced caps.array) {s : ParameterServer} {node : NodeKey} (valid : s.Valid)
    (counted : shape.Matches (s.declared node)) (stores : s.StoresWithin node caps)
    (pcaps : ParamCaps) : (nodeBound shape caps).Covers caps pcaps s node where
  namesRequest asked about := by
    apply (namesRequest_within (asked.map ParameterEntry.name)).mono
    have texts := textPrices_le (subperm_map ParameterEntry.name about)
    rw [counted.names] at texts
    exact Nat.add_le_add_left texts _
  getReply asked about r asks := by
    obtain ⟨request, last, decoded, named⟩ := asks
    apply (getReply_within valid stores bytes bools about.subset decoded named).mono
    have prices := sum_le_of_subperm (fun entry => valuePrice caps (ParameterEntry.paramType entry))
      about
    rw [counted.values] at prices
    exact Nat.add_le_add_left prices _
  describeReply asked about r asks := by
    obtain ⟨request, last, decoded, named⟩ := asks
    apply (describeReply_within valid stores about.subset decoded named).mono
    have prices := sum_le_of_subperm (fun entry => byteLen (ParameterEntry.name entry) +
      (cdrDescriptorBase + caps.description + caps.constraints)) about
    have whole := sum_add_const (fun entry => byteLen (ParameterEntry.name entry))
      (cdrDescriptorBase + caps.description + caps.constraints) (s.declared node)
    simp only [Nat.add_comm (cdrDescriptorBase + caps.description + caps.constraints)] at whole
    rw [whole, counted.nameBytes, counted.params] at prices
    dsimp only [nodeBound]
    omega
  typesReply asked about r asks := by
    obtain ⟨request, last, decoded, named⟩ := asks
    apply (typesReply_within decoded named).mono
    have short := about.length_le
    rw [counted.params] at short
    exact Nat.add_le_add_left short _
  listRequest prefixes about depth := by
    apply (listRequest_within prefixes depth).mono
    have texts := textPrices_le about
    rw [counted.prefixBytes, counted.prefixes] at texts
    exact Nat.add_le_add_right (Nat.add_le_add_left texts _) _
  listReply r truncated := by
    apply (listReply_within r truncated).mono
    rw [counted.names, counted.prefixBytes, counted.prefixes]
    exact Nat.le_refl _
  setRequest offers about offered := by
    apply (setRequest_within offered).mono
    have prices := sum_le_of_subperm (fun entry => cdrStr + byteLen (ParameterEntry.name entry) +
      valuePrice caps entry.paramType) about
    have split : ((s.declared node).map fun entry => cdrStr + byteLen (ParameterEntry.name entry) +
        valuePrice caps entry.paramType).sum =
          ((s.declared node).map fun entry => cdrStr + byteLen (ParameterEntry.name entry)).sum +
          ((s.declared node).map fun entry => valuePrice caps entry.paramType).sum :=
      List.sum_map_add
    have whole := sum_add_const (fun entry => byteLen (ParameterEntry.name entry)) cdrStr
      (s.declared node)
    rw [counted.nameBytes, counted.params] at whole
    rw [counted.values] at split
    dsimp only [nodeBound]
    omega
  setReply asked about r sets := by
    obtain ⟨request, last, decoded, named⟩ := sets
    apply (setReply_within decoded).mono
    have length := congrArg List.length named
    rw [List.length_map, List.length_map] at length
    have short := about.length_le
    rw [counted.params] at short
    rw [length]
    have results := Nat.mul_le_mul_right (1 + cdrStr + longestSetReason) short
    exact (Nat.add_le_add_left results _).trans (Nat.le_max_left _ _)
  atomicReply asked about r sets := (atomicReply_within r).mono (Nat.le_max_right _ _)

theorem ParamServiceBound.Covers.mono {b b' : ParamServiceBound} {pcaps : ParamCaps}
    {s : ParameterServer} {node : NodeKey} (covers : b.Covers caps pcaps s node)
    (le : ∀ field : ParamServiceBound → Nat,
      (∀ a b : ParamServiceBound, field (a.maxWith b) = max (field a) (field b)) →
      field b ≤ field b') : b'.Covers caps pcaps s node where
  namesRequest asked about := (covers.namesRequest asked about).mono (le _ fun _ _ => rfl)
  getReply asked about r asks := (covers.getReply asked about r asks).mono (le _ fun _ _ => rfl)
  describeReply asked about r asks :=
    (covers.describeReply asked about r asks).mono (le _ fun _ _ => rfl)
  typesReply asked about r asks :=
    (covers.typesReply asked about r asks).mono (le _ fun _ _ => rfl)
  listRequest prefixes about depth :=
    (covers.listRequest prefixes about depth).mono (le _ fun _ _ => rfl)
  listReply r truncated := (covers.listReply r truncated).mono (le _ fun _ _ => rfl)
  setRequest offers about offered :=
    (covers.setRequest offers about offered).mono (le _ fun _ _ => rfl)
  setReply asked about r sets := (covers.setReply asked about r sets).mono (le _ fun _ _ => rfl)
  atomicReply asked about r sets :=
    (covers.atomicReply asked about r sets).mono (le _ fun _ _ => rfl)

theorem boundSound_of_priced (bytes : ¬ Unpriced caps.byteArray) (bools : ¬ Unpriced caps.array) :
    BoundSound caps := by
  intro shapes shape member pcaps s node valid counted stores
  refine ⟨?_, fun field inside => ParamServiceBound.field_le_total _ inside⟩
  apply (counted.covers bytes bools valid stores pcaps).mono
  intro field joins
  exact nodeBound_le joins member caps

end

end NanoRos
