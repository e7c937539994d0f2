import NanoRos.Node.AtomicSet
import NanoRos.Node.MessageCodec
import NanoRos.Serdes.Shift

/-! The streaming handlers answer like the by-value handlers, over the request those decode. -/

namespace NanoRos

open Memory

variable {α β : Type} {N : Nat}

theorem serFailed_bind (first : Except SerError α) (next : α → Except SerError β) :
    serFailed (first >>= next) = serFailed first >>= fun a => serFailed (next a) := by
  cases first <;> rfl

theorem foldl_pushOrDrop {f : α → β} (items : List α) (v : BoundedVec β N)
    (room : v.items.length + items.length ≤ N) :
    (items.foldl (fun v a => v.pushOrDrop (f a)) v).items = v.items ++ items.map f := by
  induction items generalizing v with
  | nil => exact (List.append_nil _).symm
  | cons a items ih =>
    rw [List.length_cons] at room
    obtain ⟨grown, pushed, whole⟩ := v.push_of_room (f a) (by rw [BoundedVec.len]; omega)
    have stepped : v.pushOrDrop (f a) = grown := by
      rw [BoundedVec.pushOrDrop, pushed]
      rfl
    rw [List.foldl_cons, stepped, ih, whole, List.append_assoc]
    · rfl
    · rw [whole, List.length_append, List.length_singleton]
      omega

theorem serializeVec_answers {f : α → β} {write : CdrWriter → β → Except SerError CdrWriter}
    (w : CdrWriter) (v : WireVec α) :
    serializeVec write w (v.items.foldl (fun v a => v.pushOrDrop (f a)) (.empty : WireVec β)) =
      writeSequence (fun w a => write w (f a)) w v.items := by
  rw [serializeVec_eq _ _ wireSeqCap_small, foldl_pushOrDrop _ _ (by
    rw [BoundedVec.empty, List.length_nil, Nat.zero_add]
    exact v.fits)]
  exact (writeSequence_map f w v.items).symm

/-! The handlers that answer each name. -/

theorem streamNames_eq {answer : String → CdrWriter → Except SerError CdrWriter} {n : Nat}
    {r last : CdrReader} {names : List WireString}
    (read : readList deserializeString n r = .ok (names, last)) (w : CdrWriter) :
    streamNames answer n r w = serFailed (names.foldlM (fun w name => answer name.text w) w) := by
  induction n generalizing r w names with
  | zero =>
    cases read
    rfl
  | succ n ih =>
    obtain ⟨name, rest, next, first, later, rfl⟩ := readList_succ.mp read
    rw [streamNames, readWireString_eq_ok first, List.foldlM_cons, serFailed_bind]
    exact congrArg _ (funext fun w => ih later w)

theorem readWireSeqLen_eq {v : WireVec α} {r next : CdrReader}
    (counted : r.readSequenceLen = .ok (v.items.length, next)) :
    readWireSeqLen r = .ok (v.items.length, next) := by
  rw [readWireSeqLen, counted, ok_bind]
  dsimp only
  rw [if_neg (Nat.not_lt.mpr v.fits)]
  rfl

theorem streamByName_eq {answer : String → CdrWriter → Except SerError CdrWriter}
    {r last : CdrReader} {request : NamesRequest}
    (decoded : NamesRequest.deserialize r = .ok (request, last)) (w : CdrWriter) :
    streamByName answer r w =
      serFailed (writeSequence (fun w name => answer name.text w) w request.names.items) := by
  rw [NamesRequest.deserialize] at decoded
  obtain ⟨⟨names, last'⟩, read, done⟩ := bind_eq_ok.mp decoded
  cases done
  obtain ⟨first, counted, elements⟩ := deserializeVec_eq_ok read
  rw [streamByName, readWireSeqLen_eq counted, writeSequence, serFailed_bind]
  exact congrArg _ (funext fun w => streamNames_eq elements w)

section

variable {s : ParameterServer} {node : NodeKey} {r last : CdrReader} {request : NamesRequest}

theorem streamGetParameters_eq (decoded : NamesRequest.deserialize r = .ok (request, last))
    (w : CdrWriter) : streamGetParameters s node r w =
      serFailed (serializeVec RclParameterValue.serialize w
        (handleGetParameters s node request)) := by
  rw [streamGetParameters, streamByName_eq decoded, handleGetParameters, serializeVec_answers]
  congr 2
  funext w name
  have unset : RclParameterValue.serialize w .default = writeParameterValue w .notSet := by
    obtain ⟨m, is, written⟩ := @toRclValue_fits .notSet rfl
    cases is
    exact written w
  cases held : s.get node name.text with
  | none => exact unset.symm
  | some value =>
    rw [Option.bind_some]
    cases fits : valueFitsWire value with
    | true =>
      obtain ⟨m, is, written⟩ := toRclValue_fits fits
      simp [Option.filter, fits, is, Except.toOption, written]
    | false =>
      simp [Option.filter, fits, toRclValue_unfit fits, Except.toOption, unset]

theorem streamGetParameterTypes_eq
    (decoded : NamesRequest.deserialize r = .ok (request, last)) (w : CdrWriter) :
    streamGetParameterTypes s node r w =
      serFailed (serializeVec CdrWriter.writeU8 w (handleGetParameterTypes s node request)) := by
  rw [streamGetParameterTypes, streamByName_eq decoded, handleGetParameterTypes,
    serializeVec_answers]

theorem orEmpty_text (s : String) : (WireString.orEmpty s).text = fitOrEmpty s := by
  rw [fitOrEmpty, WireString.orEmpty, WireString.ofStr]
  split <;> rfl

theorem serializeString_orEmpty (w : CdrWriter) (s : String) :
    serializeString w (.orEmpty s) = w.writeString (fitOrEmpty s) := by
  rw [serializeString, orEmpty_text]

theorem serializeVec_one (write : CdrWriter → α → Except SerError CdrWriter) (w : CdrWriter)
    (a : α) : serializeVec write w ((.empty : BoundedVec α 1).pushOrDrop a) =
      w.writeSequenceLen 1 >>= fun w => write w a := by
  rw [serializeVec_eq _ _ (by decide), writeSequence]
  congr 1
  funext w
  exact bind_pure (write w a)

theorem writeDescriptor_eq (w : CdrWriter) (desc : ParameterDescriptor) :
    RclParameterDescriptor.serialize w (toRclDescriptor desc) = writeDescriptor w desc := by
  unfold toRclDescriptor writeDescriptor RclParameterDescriptor.serialize
  cases desc.range with
  | none =>
    simp only [RclParameterDescriptor.default, serializeVec_empty, serializeString_orEmpty]
  | floatingPoint range =>
    simp only [RclParameterDescriptor.default, serializeVec_empty, serializeString_orEmpty,
      serializeVec_one, RclFloatingPointRange.serialize, bind_assoc]
  | integer range =>
    simp only [RclParameterDescriptor.default, serializeVec_empty, serializeString_orEmpty,
      serializeVec_one, RclIntegerRange.serialize]

theorem writeMinimalDescriptor_eq (w : CdrWriter) (name : String) (code : UInt8) :
    RclParameterDescriptor.serialize w { RclParameterDescriptor.default with
        name := .orEmpty name, typeCode := code } = writeMinimalDescriptor w name code := by
  simp only [RclParameterDescriptor.serialize, RclParameterDescriptor.default, serializeVec_empty,
    serializeString_orEmpty]
  rfl

theorem streamDescribeParameters_eq
    (decoded : NamesRequest.deserialize r = .ok (request, last)) (w : CdrWriter) :
    streamDescribeParameters s node r w = serFailed (serializeVec RclParameterDescriptor.serialize w
        (handleDescribeParameters s node request)) := by
  rw [streamDescribeParameters, streamByName_eq decoded, handleDescribeParameters,
    serializeVec_answers]
  congr 2
  funext w name
  cases s.getDescriptor node name.text with
  | some desc => exact (writeDescriptor_eq w desc).symm
  | none =>
    cases s.getParameter node name.text with
    | some param => exact (writeMinimalDescriptor_eq w name.text _).symm
    | none => exact (writeMinimalDescriptor_eq w name.text 0).symm

end

/-! The list handler. -/

/-- The scan of the store and the by-value result after the same names. -/
structure ListScan.Tracks (names : List String) (scan : ListScan)
    (result : ListParametersResult) : Prop where
  nameCount : scan.nameCount = min names.length wireSeqCap
  names : result.names.items.map WireString.text = (names.take wireSeqCap).map fitOrEmpty
  prefixes : result.prefixes.items.map WireString.text = scan.prefixes

theorem BoundedVec.pushOrDrop_items (v : BoundedVec α N) (a : α) :
    (v.pushOrDrop a).items = if v.items.length < N then v.items ++ [a] else v.items := by
  rw [pushOrDrop, push]
  split <;> rfl

namespace ListScan.Tracks

variable {names : List String} {scan : ListScan} {result : ListParametersResult}

section

variable (tracks : Tracks names scan result)
include tracks

theorem noteName (name : String) :
    Tracks (names ++ [name]) scan.noteName
      { result with names := result.names.pushOrDrop (.orEmpty name) } := by
  have counted := congrArg List.length tracks.names
  rw [List.length_map, List.length_map, List.length_take] at counted
  have before := tracks.nameCount
  unfold ListScan.noteName
  by_cases room : names.length < wireSeqCap
  · have free : scan.nameCount < wireSeqCap := by omega
    rw [if_pos free]
    refine ⟨?_, ?_, tracks.prefixes⟩
    · rw [List.length_append, List.length_singleton]
      dsimp only
      omega
    · rw [BoundedVec.pushOrDrop_items, if_pos (by omega), List.map_append, tracks.names,
        List.take_of_length_le (by omega), List.take_of_length_le (by simpa using room),
        List.map_append, List.map_singleton, List.map_singleton, orEmpty_text]
  · have full : ¬ scan.nameCount < wireSeqCap := by omega
    rw [if_neg full]
    refine ⟨?_, ?_, tracks.prefixes⟩
    · rw [List.length_append, List.length_singleton]
      dsimp only
      omega
    · rw [BoundedVec.pushOrDrop_items, if_neg (by omega), tracks.names,
        List.take_append_of_le_length (by omega)]

theorem notePrefix {start : String} (short : byteLen start ≤ wireStringCap)
    : Tracks names (scan.notePrefix start)
      (if result.prefixes.items.any fun existing => existing.text == start then result
      else { result with prefixes := result.prefixes.pushOrDrop (.orEmpty start) }) := by
  have seen : (result.prefixes.items.any fun existing => existing.text == start) =
      scan.prefixes.contains start := by
    rw [← tracks.prefixes, List.contains_eq_any_beq, List.any_map]
    congr 1
    funext existing
    exact BEq.comm
  have counted := congrArg List.length tracks.prefixes
  rw [List.length_map] at counted
  rw [seen]
  unfold ListScan.notePrefix
  split
  · exact tracks
  · by_cases room : scan.prefixes.length < wireSeqCap
    · rw [if_pos room]
      refine ⟨tracks.nameCount, tracks.names, ?_⟩
      rw [BoundedVec.pushOrDrop_items, if_pos (by omega), List.map_append, tracks.prefixes,
        List.map_singleton, orEmpty_text, fitOrEmpty, if_pos short]
    · rw [if_neg room]
      refine ⟨tracks.nameCount, tracks.names, ?_⟩
      rw [BoundedVec.pushOrDrop_items, if_neg (by omega), tracks.prefixes]

theorem note {name : String}
    (short : ∀ start, namePrefix name = some start → byteLen start ≤ wireStringCap) :
    Tracks (names ++ [name]) (scan.note name) (noteListed result name) := by
  have named := tracks.noteName name
  unfold ListScan.note noteListed
  cases found : namePrefix name with
  | none => exact named
  | some start => exact named.notePrefix (short start found)

theorem foldl (later : List String) (short : ∀ name ∈ later, ∀ start, namePrefix name = some start →
      byteLen start ≤ wireStringCap) :
    Tracks (names ++ later) (later.foldl ListScan.note scan) (later.foldl noteListed result) := by
  induction later generalizing names scan result with
  | nil =>
    rw [List.append_nil]
    exact tracks
  | cons name later ih =>
    have next := ih (tracks.note (short name List.mem_cons_self))
      fun name member => short name (List.mem_cons_of_mem _ member)
    rw [List.append_assoc] at next
    exact next

end

end ListScan.Tracks

theorem serializeStrings_eq (w : CdrWriter) (v : WireVec WireString) :
    serializeVec serializeString w v =
      writeSequence CdrWriter.writeString w (v.items.map WireString.text) := by
  rw [serializeVec_eq _ _ wireSeqCap_small]
  exact writeSequence_map WireString.text w v.items

theorem map_fitOrEmpty (v : WireVec WireString) :
    (v.items.map WireString.text).map fitOrEmpty = v.items.map WireString.text := by
  rw [List.map_map]
  congr 1
  funext s
  exact if_pos s.fits

theorem ListScan.Tracks.serialized {names : List String} {scan : ListScan}
    {result : ListParametersResult} (tracks : Tracks names scan result) (w : CdrWriter) :
    ListParametersResult.serialize w result = (do
      let w ← w.writeSequenceLen scan.nameCount
      let w ← (names.take scan.nameCount).foldlM
        (fun w name => w.writeString (fitOrEmpty name)) w
      let w ← w.writeSequenceLen scan.prefixes.length
      scan.prefixes.foldlM (fun w start => w.writeString (fitOrEmpty start)) w) := by
  have taken : names.take scan.nameCount = names.take wireSeqCap := by
    rw [tracks.nameCount, ← List.take_take, List.take_of_length_le]
    rw [List.length_take]
    omega
  have count : scan.nameCount = (names.take wireSeqCap).length := by
    rw [List.length_take, tracks.nameCount, Nat.min_comm]
  have prefixes := map_fitOrEmpty result.prefixes
  rw [tracks.prefixes] at prefixes
  rw [ListParametersResult.serialize, serializeStrings_eq, tracks.names,
    ← writeSequence_map fitOrEmpty, writeSequence, taken, count, bind_assoc]
  congr 1
  funext w
  congr 1
  funext w
  rw [serializeStrings_eq, tracks.prefixes, ← prefixes, ← writeSequence_map fitOrEmpty,
    writeSequence, prefixes]

theorem readFilters_eq {n : Nat} {r last : CdrReader} {filters : List WireString}
    (read : readList deserializeString n r = .ok (filters, last)) :
    readFilters n r = .ok (filters.map WireString.text, last) := by
  induction n generalizing r filters with
  | zero =>
    cases read
    rfl
  | succ n ih =>
    obtain ⟨filter, rest, next, first, later, rfl⟩ := readList_succ.mp read
    rw [readFilters, readWireString_eq_ok first, ok_bind]
    dsimp only
    rw [ih later]
    rfl

def listedNames (s : ParameterServer) (node : NodeKey) (request : ListParametersRequest) :
    List String :=
  ((s.iter node).map Parameter.name).filter
    (listSelected (request.prefixes.items.map WireString.text) request.depth)

theorem streamListParameters_eq {s : ParameterServer} {node : NodeKey} {r last : CdrReader}
    {request : ListParametersRequest}
    (decoded : ListParametersRequest.deserialize r = .ok (request, last))
    (short : ∀ name ∈ listedNames s node request, ∀ start, namePrefix name = some start →
      byteLen start ≤ wireStringCap) (w : CdrWriter) (truncated : Bool) :
    (streamListParameters s node r w truncated).2 =
      serFailed (ListParametersResult.serialize w (handleListParameters s node request)) := by
  rw [ListParametersRequest.deserialize] at decoded
  obtain ⟨⟨filters, r1⟩, read, decoded⟩ := bind_eq_ok.mp decoded
  obtain ⟨⟨depth, r2⟩, deep, done⟩ := bind_eq_ok.mp decoded
  cases done
  obtain ⟨first, counted, elements⟩ := deserializeVec_eq_ok read
  unfold streamListParameters
  rw [readWireSeqLen_eq counted, ok_bind]
  dsimp only
  rw [readFilters_eq elements, ok_bind]
  dsimp only
  rw [deep, ok_bind]
  have tracks : ListScan.Tracks [] ⟨0, [], truncated⟩ ⟨.empty, .empty⟩ := ⟨rfl, rfl, rfl⟩
  have listed := tracks.foldl _ short
  rw [List.nil_append] at listed
  exact congrArg serFailed (listed.serialized w).symm

/-! The set handler. -/

section

variable {caps : ParamCaps} {node : NodeKey}

theorem readSetItem_eq {r next : CdrReader} {param : RclParameter}
    (read : RclParameter.deserialize r = .ok (param, next)) :
    readSetItem caps r = .ok ((param.name.text, fromRclValue caps param.value), next) := by
  rw [RclParameter.deserialize] at read
  obtain ⟨⟨name, r1⟩, named, read⟩ := bind_eq_ok.mp read
  obtain ⟨⟨value, r2⟩, valued, done⟩ := bind_eq_ok.mp read
  cases done
  rw [readSetItem, deserializeString_eq_ok named, ok_bind]
  dsimp only
  rw [readParameterValueInto_eq caps valued]
  rfl

theorem handleSetOne_eq (caps : ParamCaps) (node : NodeKey) (s : ParameterServer)
    (param : RclParameter) :
    let served := setOne caps s node param.name.text (fromRclValue caps param.value)
    handleSetOne caps node s param = (⟨served.1.1, .orEmpty served.1.2⟩, served.2) := by
  dsimp only
  rw [handleSetOne, setOne, wireChecked, if_neg (Nat.not_lt.mpr param.name.fits)]
  cases fromRclValue caps param.value with
  | error e => rfl
  | ok value =>
    dsimp only
    rw [ParameterServer.applyStaged_eq_apply]
    rfl

theorem writeSetResult_eq (w : CdrWriter) (successful : Bool) (reason : String) :
    writeSetResult w successful reason =
      SetParametersResult.serialize w ⟨successful, .orEmpty reason⟩ := by
  rw [SetParametersResult.serialize]
  simp only [serializeString_orEmpty]
  rfl

/-- The results of a set request in order, and the store at the end. -/
def setResults (caps : ParamCaps) (node : NodeKey) : ParameterServer → List RclParameter →
    List SetParametersResult × ParameterServer
  | s, [] => ([], s)
  | s, param :: params =>
    let served := handleSetOne caps node s param
    let rest := setResults caps node served.2 params
    (served.1 :: rest.1, rest.2)

theorem setResults_length (s : ParameterServer) (params : List RclParameter) :
    (setResults caps node s params).1.length = params.length := by
  induction params generalizing s with
  | nil => rfl
  | cons param params ih => exact congrArg (· + 1) (ih _)

theorem foldl_handleSetNext (caps : ParamCaps) (node : NodeKey) (params : List RclParameter) (v : WireVec SetParametersResult)
    (s : ParameterServer) (room : v.items.length + params.length ≤ wireSeqCap) :
    (params.foldl (handleSetNext caps node) (v, s)).1.items =
        v.items ++ (setResults caps node s params).1 ∧
      (params.foldl (handleSetNext caps node) (v, s)).2 = (setResults caps node s params).2 := by
  induction params generalizing v s with
  | nil => exact ⟨(List.append_nil _).symm, rfl⟩
  | cons param params ih =>
    rw [List.length_cons] at room
    have pushed := v.pushOrDrop_items (handleSetOne caps node s param).1
    rw [if_pos (by omega)] at pushed
    obtain ⟨results, store⟩ := ih (v.pushOrDrop (handleSetOne caps node s param).1)
      (handleSetOne caps node s param).2 (by
        rw [pushed, List.length_append, List.length_singleton]
        omega)
    rw [pushed, List.append_assoc] at results
    exact ⟨results, store⟩

theorem streamSetLoop_eq {n : Nat} {r last : CdrReader} {params : List RclParameter}
    (read : readList RclParameter.deserialize n r = .ok (params, last)) (s : ParameterServer)
    {w w' : CdrWriter}
    (written : (setResults caps node s params).1.foldlM SetParametersResult.serialize w = .ok w') :
    streamSetLoop caps node n s r w = ((setResults caps node s params).2, .ok w') := by
  induction n generalizing r params s w with
  | zero =>
    cases read
    cases written
    rfl
  | succ n ih =>
    obtain ⟨param, rest, next, first, later, rfl⟩ := readList_succ.mp read
    have served := handleSetOne_eq caps node s param
    rw [setResults] at written ⊢
    dsimp only at written served ⊢
    rw [List.foldlM_cons] at written
    obtain ⟨w1, one, written⟩ := bind_eq_ok.mp written
    rw [streamSetLoop, readSetItem_eq first]
    dsimp only
    rw [served, ← writeSetResult_eq] at one
    rw [one]
    dsimp only
    rw [ih later _ (by rw [served] at written; exact written), served]

theorem streamSetParameters_eq {r last : CdrReader} {request : SetParametersRequest}
    (decoded : SetParametersRequest.deserialize r = .ok (request, last)) (s : ParameterServer)
    {w w' : CdrWriter}
    (written : serializeVec SetParametersResult.serialize w
      (handleSetParameters caps node s request).1 = .ok w') :
    streamSetParameters caps s node r w =
      ((handleSetParameters caps node s request).2, .ok w') := by
  rw [SetParametersRequest.deserialize] at decoded
  obtain ⟨⟨params, last'⟩, read, done⟩ := bind_eq_ok.mp decoded
  cases done
  obtain ⟨first, counted, elements⟩ := deserializeVec_eq_ok read
  obtain ⟨results, store⟩ := foldl_handleSetNext caps node params.items .empty s (by
      rw [BoundedVec.empty, List.length_nil, Nat.zero_add]
      exact params.fits)
  have none : (BoundedVec.empty : WireVec SetParametersResult).items = [] := rfl
  rw [serializeVec_eq _ _ wireSeqCap_small, handleSetParameters, results, none, List.nil_append,
    writeSequence, setResults_length] at written
  obtain ⟨w1, sized, written⟩ := bind_eq_ok.mp written
  rw [streamSetParameters, counted]
  dsimp only
  rw [sized]
  dsimp only
  rw [streamSetLoop_eq elements s written, handleSetParameters, store]

end

/-! The atomic handler. Its passes read the body from a reader of its own. -/

section

open CdrReader

theorem deserializeString_shifts : Shifts deserializeString := by
  apply readString_shifts.bind
  intro s front r
  dsimp only
  cases WireString.ofStr s <;> rfl

theorem deserializeElements_shifts {read : CdrReader → Except DeserError (α × CdrReader)}
    (shifts : Shifts read) (n : Nat) (v : BoundedVec α N) :
    Shifts (deserializeElements read n v) := by
  induction n generalizing v with
  | zero => exact Shifts.pure v
  | succ n ih =>
    apply shifts.bind
    intro a front r
    dsimp only
    cases v.push a with
    | none => rfl
    | some grown => exact ih grown front r

theorem deserializeVec_shifts {read : CdrReader → Except DeserError (α × CdrReader)}
    (shifts : Shifts read) : Shifts (deserializeVec read : _ → Except _ (BoundedVec α N × _)) :=
  readU32_shifts.bind fun len => deserializeElements_shifts shifts len.toNat .empty

theorem RclParameterValue.deserialize_shifts : Shifts RclParameterValue.deserialize := by
  apply readU8_shifts.bind
  intro typeCode
  apply readBool_shifts.bind
  intro boolValue
  apply readI64_shifts.bind
  intro integerValue
  apply readF64_shifts.bind
  intro doubleValue
  apply deserializeString_shifts.bind
  intro stringValue
  apply (deserializeVec_shifts readU8_shifts).bind
  intro byteArrayValue
  apply (deserializeVec_shifts readBool_shifts).bind
  intro boolArrayValue
  apply (deserializeVec_shifts readI64_shifts).bind
  intro integerArrayValue
  apply (deserializeVec_shifts readF64_shifts).bind
  intro doubleArrayValue
  exact (deserializeVec_shifts deserializeString_shifts).map _

theorem RclParameter.deserialize_shifts : Shifts RclParameter.deserialize :=
  deserializeString_shifts.bind fun name =>
    RclParameterValue.deserialize_shifts.map (RclParameter.mk name)

theorem setItems_eq {caps : ParamCaps} {n : Nat} {r last : CdrReader} {params : List RclParameter}
    (read : readList RclParameter.deserialize n r = .ok (params, last)) :
    setItems caps n r = .ok (params.map fun param =>
      (param.name.text, fromRclValue caps param.value), last) := by
  induction n generalizing r params with
  | zero =>
    cases read
    rfl
  | succ n ih =>
    obtain ⟨param, rest, next, first, later, rfl⟩ := readList_succ.mp read
    rw [setItems, readSetItem_eq first, ok_bind]
    dsimp only
    rw [ih later]
    rfl

theorem rewind_eq (body : List UInt8) (version : EncodingVersion) :
    rewind body version = .ok ⟨body, 0, 0, version⟩ := by
  cases version with
  | xcdr1 => rfl
  | xcdr2 => rw [rewind, CdrReader.newAtXcdr2, if_neg (Nat.not_lt_zero _)]

theorem newWithHeader_eq {bytes : List UInt8} {r : CdrReader}
    (opened : CdrReader.newWithHeader bytes = .ok r) :
    4 ≤ bytes.length ∧ ∃ version, r = ⟨bytes, 4, 4, version⟩ := by
  rw [CdrReader.newWithHeader] at opened
  split at opened
  · cases opened
  next long =>
    refine ⟨Nat.not_lt.mp long, ?_⟩
    split at opened
    · cases opened
    split at opened
    · cases opened
      exact ⟨_, rfl⟩
    split at opened
    · cases opened
      exact ⟨_, rfl⟩
    · cases opened

theorem requestItems_eq (caps : ParamCaps) {bytes : List UInt8} {r last : CdrReader}
    (opened : CdrReader.newWithHeader bytes = .ok r) {request : SetParametersRequest}
    (decoded : SetParametersRequest.deserialize r = .ok (request, last)) :
    requestItems caps r = .ok (request.parameters.items.map fun param =>
      (param.name.text, fromRclValue caps param.value)) := by
  obtain ⟨long, version, rfl⟩ := newWithHeader_eq opened
  have shifted : (⟨bytes, 4, 4, version⟩ : CdrReader) =
      (⟨bytes.drop 4, 0, 0, version⟩ : CdrReader).shift (bytes.take 4) := by
    have four : (bytes.take 4).length = 4 := by
      rw [List.length_take]
      omega
    rw [CdrReader.shift, four, List.take_append_drop]
    rfl
  have body : (⟨bytes, 4, 4, version⟩ : CdrReader).readBytes (bytes.length - 4) =
      .ok (bytes.drop 4, ⟨bytes, 4 + (bytes.length - 4), 4, version⟩) := by
    rw [CdrReader.readBytes, CdrReader.remaining, if_neg (Nat.lt_irrefl _), slice,
      ← List.length_drop, List.take_length]
  rw [SetParametersRequest.deserialize] at decoded
  obtain ⟨⟨params, last'⟩, read, done⟩ := bind_eq_ok.mp decoded
  cases done
  rw [shifted, deserializeVec_shifts RclParameter.deserialize_shifts] at read
  cases here : (deserializeVec RclParameter.deserialize ⟨bytes.drop 4, 0, 0, version⟩ :
      Except DeserError (WireVec RclParameter × CdrReader)) with
  | error e =>
    rw [here] at read
    cases read
  | ok got =>
    rw [here] at read
    cases read
    obtain ⟨first, counted, elements⟩ := deserializeVec_eq_ok here
    rw [requestItems, CdrReader.remaining, body]
    dsimp only [CdrReader.isAtOrigin]
    rw [ok_bind, atomicPass, rewind_eq, ok_bind, counted, ok_bind]
    dsimp only
    rw [setItems_eq elements]
    rfl

end

section

variable {caps : ParamCaps} {s : ParameterServer} {node : NodeKey}

/-- The element an item of the request is to `apply_atomically`. -/
def RequestItem.element (item : RequestItem) : ParameterServer.SetItem :=
  item.2.toOption.map fun v => (item.1, v)

/-- The hooks accept the value the item would set. -/
def HooksAccept (s : ParameterServer) (node : NodeKey) (item : RequestItem) : Prop :=
  ∀ value, item.2 = .ok value →
    s.runOnSetCallbacks node item.1 (s.get node item.1) (some value) = true

theorem checkAll_ok_iff {items : List RequestItem}
    (short : ∀ item ∈ items, byteLen item.1 ≤ wireStringCap) :
    s.checkAll caps node (items.map RequestItem.element) = .ok () ↔
      (∀ item ∈ items, atomicFine caps s node item.1 item.2 = true) ∧
        ∀ item ∈ items, HooksAccept s node item := by
  induction items with
  | nil => simp [ParameterServer.checkAll]
  | cons item items ih =>
    obtain ⟨name, value⟩ := item
    have rest := ih fun item member => short item (List.mem_cons_of_mem _ member)
    rw [List.map_cons, List.forall_mem_cons, List.forall_mem_cons]
    cases value with
    | error e =>
      have refused : ¬ atomicFine caps s node name (.error e) = true := Bool.false_ne_true
      simp [RequestItem.element, Except.toOption, ParameterServer.checkAll, refused]
    | ok value =>
      have named : byteLen name ≤ wireStringCap := short _ List.mem_cons_self
      have fine : atomicFine caps s node name (.ok value) = true ↔
          s.checkApply caps node name value = .ok () := by
        rw [atomicFine_iff]
        simp [named]
      have accept : HooksAccept s node (name, .ok value) ↔
          s.runOnSetCallbacks node name (s.get node name) (some value) = true := by
        simp [HooksAccept]
      rw [fine, accept, RequestItem.element]
      simp only [Except.toOption, Option.map_some, ParameterServer.checkAll]
      cases s.checkApply caps node name value with
      | error e => simp
      | ok =>
        cases s.runOnSetCallbacks node name (s.get node name) (some value) with
        | false =>
          apply iff_of_false
          · intro done
            cases done
          · simp
        | true => simpa using rest

theorem applyAll_eq (items : List RequestItem) :
    s.applyAll caps node (items.map RequestItem.element) = items.foldl (applyItem caps node) s := by
  induction items generalizing s with
  | nil => rfl
  | cons item items ih =>
    rw [List.foldl_cons, ← ih]
    obtain ⟨name, value⟩ := item
    cases value <;> rfl

variable {bytes buf : List UInt8} {r last : CdrReader} {w w' : CdrWriter}
  {request : SetParametersRequest}

/-- Every parameter converts and passes the check, and a hook refuses one of them. -/
def OnlyHooksRefuse (caps : ParamCaps) (s : ParameterServer) (node : NodeKey)
    (request : SetParametersRequest) : Prop :=
  (∀ param ∈ request.parameters.items, ∃ value, fromRclValue caps param.value = .ok value ∧
    s.checkApply caps node param.name.text value = .ok ()) ∧
  ∃ param ∈ request.parameters.items, ∃ value, fromRclValue caps param.value = .ok value ∧
    s.runOnSetCallbacks node param.name.text (s.get node param.name.text) (some value) = false

theorem onlyHooksRefuse_iff {items : List RequestItem}
    (are : items = request.parameters.items.map fun param =>
      (param.name.text, fromRclValue caps param.value)) :
    OnlyHooksRefuse caps s node request ↔
      (∀ item ∈ items, atomicFine caps s node item.1 item.2 = true) ∧
        ¬ ∀ item ∈ items, HooksAccept s node item := by
  subst are
  rw [OnlyHooksRefuse, List.forall_mem_map, List.forall_mem_map]
  apply and_congr
  · apply forall₂_congr
    intro param _
    rw [atomicFine_iff]
    exact (and_iff_right param.name.fits).symm
  · simp [HooksAccept]

theorem handleSetParametersAtomically_eq (caps : ParamCaps) (s : ParameterServer) (node : NodeKey)
    {request : SetParametersRequest} {items : List RequestItem}
    (are : items = request.parameters.items.map fun param =>
      (param.name.text, fromRclValue caps param.value)) :
    ((∀ item ∈ items, atomicFine caps s node item.1 item.2 = true) ∧
      (∀ item ∈ items, HooksAccept s node item) →
      handleSetParametersAtomically caps node s request =
        (⟨true, .orEmpty ""⟩, items.foldl (applyItem caps node) s)) ∧
    (¬ ((∀ item ∈ items, atomicFine caps s node item.1 item.2 = true) ∧
      ∀ item ∈ items, HooksAccept s node item) → handleSetParametersAtomically caps node s request =
        (⟨false, .orEmpty atomicFailureReason⟩, s)) := by
  have short : ∀ item ∈ items, byteLen item.1 ≤ wireStringCap := by
    rw [are, List.forall_mem_map]
    intro param _
    exact param.name.fits
  have elements : (request.parameters.items.map fun param =>
      (fromRclValue caps param.value).toOption.map fun v => (param.name.text, v)) =
      items.map RequestItem.element := by
    rw [are, List.map_map]
    rfl
  rw [← checkAll_ok_iff short, handleSetParametersAtomically, elements,
    ParameterServer.applyAtomically]
  constructor
  · intro passed
    rw [passed, ← applyAll_eq]
    rfl
  · intro refused
    cases verdict : s.checkAll caps node (items.map RequestItem.element) with
    | ok => exact absurd verdict refused
    | error e => rfl

theorem streamSetParametersAtomically_like (opened : CdrReader.newWithHeader bytes = .ok r)
    (decoded : SetParametersRequest.deserialize r = .ok (request, last))
    (reply : CdrWriter.newWithHeader buf = .ok w) (written : SetParametersResult.serialize w
      (handleSetParametersAtomically caps node s request).1 = .ok w') :
    streamSetParametersAtomically caps s node r w =
        ((handleSetParametersAtomically caps node s request).2, .ok w') ↔
      ¬ OnlyHooksRefuse caps s node request := by
  have read := requestItems_eq caps opened decoded
  obtain ⟨passes, refuses⟩ := @handleSetParametersAtomically_eq caps s node request _ rfl
  rw [onlyHooksRefuse_iff rfl, streamSetParametersAtomically_eq read]
  generalize request.parameters.items.map (fun param =>
    (param.name.text, fromRclValue caps param.value)) = items at *
  by_cases fine : ∀ item ∈ items, atomicFine caps s node item.1 item.2 = true
  · rw [if_pos (List.all_eq_true.mpr fine)]
    by_cases accept : ∀ item ∈ items, HooksAccept s node item
    · rw [passes ⟨fine, accept⟩] at written ⊢
      rw [← writeSetResult_eq] at written
      rw [written]
      exact iff_of_true rfl fun only => only.2 accept
    · rw [refuses fun both => accept both.2] at written ⊢
      rw [← writeSetResult_eq] at written
      apply iff_of_false
      · intro same
        have told := replySuccessful_written reply (serFailed_eq_ok.mp (Prod.mk.inj same).2)
        rw [replySuccessful_written reply written] at told
        cases told
      · exact fun only => only ⟨fine, accept⟩
  · rw [if_neg fun all => fine (List.all_eq_true.mp all)]
    rw [refuses fun both => fine both.1] at written ⊢
    rw [← writeSetResult_eq] at written
    rw [written]
    exact iff_of_true rfl fun only => fine only.1

end

/-- When the by-value reply fits, the streaming handler writes it and leaves the same store. -/
def AnswersLike (streamed : ParameterServer × Except HandlerError CdrWriter)
    (s : ParameterServer) (reply : Except SerError CdrWriter) : Prop :=
  ∀ w', reply = .ok w' → streamed = (s, .ok w')

theorem AnswersLike.of_eq {s : ParameterServer} {streamed : Except HandlerError CdrWriter}
    {reply : Except SerError CdrWriter} (same : streamed = serFailed reply) :
    AnswersLike (s, streamed) s reply := by
  intro w' written
  rw [same, written]
  rfl

/-- The six services against their by-value handlers, over the request those decode. -/
theorem stream_like_oracle (caps : ParamCaps) (s : ParameterServer) (node : NodeKey)
    {bytes buf : List UInt8} {r : CdrReader} (opened : CdrReader.newWithHeader bytes = .ok r)
    {w : CdrWriter} (ready : CdrWriter.newWithHeader buf = .ok w) :
    (∀ request last, NamesRequest.deserialize r = .ok (request, last) →
      AnswersLike (s, streamGetParameters s node r w) s
          (serializeVec RclParameterValue.serialize w (handleGetParameters s node request)) ∧
        AnswersLike (s, streamDescribeParameters s node r w) s
          (serializeVec RclParameterDescriptor.serialize w
            (handleDescribeParameters s node request)) ∧
        AnswersLike (s, streamGetParameterTypes s node r w) s
          (serializeVec CdrWriter.writeU8 w (handleGetParameterTypes s node request))) ∧
    (∀ request last truncated, ListParametersRequest.deserialize r = .ok (request, last) →
      (∀ name ∈ listedNames s node request, ∀ start, namePrefix name = some start →
        byteLen start ≤ wireStringCap) →
      AnswersLike (s, (streamListParameters s node r w truncated).2) s
        (ListParametersResult.serialize w (handleListParameters s node request))) ∧
    (∀ request last, SetParametersRequest.deserialize r = .ok (request, last) →
      AnswersLike (streamSetParameters caps s node r w)
        (handleSetParameters caps node s request).2
        (serializeVec SetParametersResult.serialize w
          (handleSetParameters caps node s request).1)) ∧
    ∀ request last w', SetParametersRequest.deserialize r = .ok (request, last) →
      SetParametersResult.serialize w (handleSetParametersAtomically caps node s request).1 =
        .ok w' →
      (streamSetParametersAtomically caps s node r w =
          ((handleSetParametersAtomically caps node s request).2, .ok w') ↔
        ¬ OnlyHooksRefuse caps s node request) := by
  refine ⟨?_, ?_, ?_, ?_⟩
  · intro request last decoded
    exact ⟨.of_eq (streamGetParameters_eq decoded w),
      .of_eq (streamDescribeParameters_eq decoded w), .of_eq (streamGetParameterTypes_eq decoded w)⟩
  · intro request last truncated decoded short
    exact .of_eq (streamListParameters_eq decoded short w truncated)
  · intro request last decoded w' written
    exact streamSetParameters_eq decoded s written
  · intro request last w' decoded written
    exact streamSetParametersAtomically_like opened decoded ready written

/-- The writer of a reply of at most 64 bytes. -/
def replyWriter : CdrWriter := ⟨overwrite (List.replicate 64 0) 0 cdrLeHeader, 4, 4, .xcdr1, false⟩

theorem replyWriter_opened : CdrWriter.newWithHeader (List.replicate 64 0) = .ok replyWriter := rfl

def setBothReader : CdrReader := ⟨setBothRequest, 4, 4, .xcdr1⟩

theorem setBoth_opened : CdrReader.newWithHeader setBothRequest = .ok setBothReader := by
  rw [CdrReader.newWithHeader, if_neg (by decide +kernel), if_neg (by decide +kernel),
    if_pos (by decide +kernel)]
  rfl

theorem setBoth_decodes : ∃ request last,
    SetParametersRequest.deserialize setBothReader = .ok (request, last) ∧
      setBothItems = request.parameters.items.map fun param =>
        (param.name.text, fromRclValue defaultCaps param.value) := by
  cases decoded : SetParametersRequest.deserialize setBothReader with
  | error e =>
    have decodes : (SetParametersRequest.deserialize setBothReader).isOk = true := by
      decide +kernel
    rw [decoded] at decodes
    cases decodes
  | ok got =>
    have items : requestItems defaultCaps setBothReader = .ok setBothItems := by decide +kernel
    rw [requestItems_eq _ setBoth_opened decoded] at items
    exact ⟨got.1, got.2, rfl, (Except.ok.inj items).symm⟩

theorem replyWriter_fits (successful : Bool) : ∃ w', SetParametersResult.serialize replyWriter
    ⟨successful, .orEmpty (if successful then "" else atomicFailureReason)⟩ = .ok w' := by
  cases written : SetParametersResult.serialize replyWriter
      ⟨successful, .orEmpty (if successful then "" else atomicFailureReason)⟩ with
  | error e =>
    have fits : (SetParametersResult.serialize replyWriter ⟨successful,
        .orEmpty (if successful then "" else atomicFailureReason)⟩).isOk = true := by
      cases successful <;> decide +kernel
    rw [written] at fits
    cases fits
  | ok w' => exact ⟨w', rfl⟩

theorem stream_like_oracle_both : ∃ request last w',
    SetParametersRequest.deserialize setBothReader = .ok (request, last) ∧
    SetParametersResult.serialize replyWriter
        (handleSetParametersAtomically defaultCaps 0 (emptyStore 2) request).1 = .ok w' ∧
      streamSetParametersAtomically defaultCaps (emptyStore 2) 0 setBothReader replyWriter =
        ((handleSetParametersAtomically defaultCaps 0 (emptyStore 2) request).2, .ok w') := by
  obtain ⟨request, last, decoded, items⟩ := setBoth_decodes
  have fine : ∀ item ∈ setBothItems,
      atomicFine defaultCaps (emptyStore 2) 0 item.1 item.2 = true := by decide +kernel
  have accepts : ∀ item ∈ setBothItems, HooksAccept (emptyStore 2) 0 item :=
    fun _ _ _ _ => rfl
  obtain ⟨w', written⟩ := replyWriter_fits true
  have answer := (handleSetParametersAtomically_eq defaultCaps (emptyStore 2) 0 items).1 ⟨fine, accepts⟩
  have reply : SetParametersResult.serialize replyWriter
      (handleSetParametersAtomically defaultCaps 0 (emptyStore 2) request).1 = .ok w' := by
    rw [answer]
    exact written
  refine ⟨request, last, w', decoded, reply, ?_⟩
  apply ((stream_like_oracle defaultCaps (emptyStore 2) 0 setBoth_opened
    replyWriter_opened).2.2.2 request last w' decoded reply).mpr
  rw [onlyHooksRefuse_iff items]
  exact fun only => only.2 accepts

/-- The store with two slots, and a hook that refuses everything. -/
def refusingStore : ParameterServer :=
  { emptyStore 2 with onSet := [some ⟨0, fun _ _ _ _ _ => false, ⟨0, 0⟩⟩, none, none, none] }

/-- The hook refuses both values: the oracle answers that nothing could be set, the streaming
handler that everything was. -/
theorem stream_claim_fails : ¬ ∀ (caps : ParamCaps) (s : ParameterServer) (node : NodeKey)
    (bytes buf : List UInt8) (r last : CdrReader) (w w' : CdrWriter)
    (request : SetParametersRequest), CdrReader.newWithHeader bytes = .ok r →
    CdrWriter.newWithHeader buf = .ok w → SetParametersRequest.deserialize r = .ok (request, last) →
    SetParametersResult.serialize w (handleSetParametersAtomically caps node s request).1 = .ok w' →
    streamSetParametersAtomically caps s node r w =
      ((handleSetParametersAtomically caps node s request).2, .ok w') := by
  intro all
  obtain ⟨request, last, decoded, items⟩ := setBoth_decodes
  have fine : ∀ item ∈ setBothItems,
      atomicFine defaultCaps refusingStore 0 item.1 item.2 = true := by decide +kernel
  have refuses : ¬ ∀ item ∈ setBothItems, HooksAccept refusingStore 0 item := by
    intro accepts
    have accepted := accepts ("a", .ok (.bool true)) List.mem_cons_self (.bool true) rfl
    revert accepted
    decide +kernel
  obtain ⟨w', written⟩ := replyWriter_fits false
  have answer := (handleSetParametersAtomically_eq defaultCaps refusingStore 0 items).2 fun both => refuses both.2
  have reply : SetParametersResult.serialize replyWriter
      (handleSetParametersAtomically defaultCaps 0 refusingStore request).1 = .ok w' := by
    rw [answer]
    exact written
  have same := all defaultCaps refusingStore 0 setBothRequest (List.replicate 64 0) setBothReader
    last replyWriter w' request setBoth_opened replyWriter_opened decoded reply
  apply (streamSetParametersAtomically_like setBoth_opened decoded replyWriter_opened
    reply).mp same
  rw [onlyHooksRefuse_iff items]
  exact ⟨fine, refuses⟩

end NanoRos
