import NanoRos.Zenoh.Liveliness

/-! What the parser reads from the builders' tokens. -/

namespace NanoRos.Zenoh

open String (utf8Len)

/-- The arguments of a token's builder; a node has no id, topic and QoS. -/
structure TokenSource where
  kind : EntityKind
  domainId : UInt32
  zid : ZenohId
  entityId : UInt32
  ns : Text
  nodeName : Text
  info : EndpointInfo
  qos : QoSProfile

namespace TokenSource

def key (N : Nat) (t : TokenSource) : FixedString N :=
  match t.kind with
  | .node => nodeKeyexpr N t.domainId t.zid t.ns t.nodeName
  | .publisher => publisherKeyexpr N t.domainId t.zid t.entityId t.ns t.nodeName t.info t.qos
  | .subscriber => subscriberKeyexpr N t.domainId t.zid t.entityId t.ns t.nodeName t.info t.qos
  | .serviceServer =>
    serviceServerKeyexpr N t.domainId t.zid t.entityId t.ns t.nodeName t.info t.qos
  | .serviceClient =>
    serviceClientKeyexpr N t.domainId t.zid t.entityId t.ns t.nodeName t.info t.qos

def pieces (mangle : Text → Text) (t : TokenSource) : List Text :=
  if t.kind = .node then nodePieces mangle t.domainId t.zid t.ns t.nodeName
  else entityHead mangle t.kind t.domainId t.zid t.entityId t.ns t.nodeName t.info ++
    [(toQosString qosStringSize t.qos).text]

/-- The text a token needs room for: all of its names, mangled. -/
def text (t : TokenSource) : Text := (t.pieces (List.map mangleChar)).flatten

def tail (qos : Text) (t : TokenSource) : Option (Text × Text × Text × Text) :=
  if t.kind = .node then none
  else some (mangled t.info.name, ddsTypeName t.info.typeName, hashSegment t.info.typeHash, qos)

/-- Names without `%`; a node name, a DDS type and a hash without `/`. -/
structure WellFormed (t : TokenSource) : Prop where
  ns : '%' ∉ t.ns
  nodeName : t.nodeName ≠ [] ∧ '/' ∉ t.nodeName
  info : t.kind ≠ .node →
    '%' ∉ t.info.name ∧ '/' ∉ ddsTypeName t.info.typeName ∧ '/' ∉ t.info.typeHash

/-- What a parsed token has to say about the entity it was built for. -/
structure ReadsBack (t : TokenSource) (e : LivelinessEntity) : Prop where
  domainId : e.domainId = t.domainId
  zid : e.zid = t.zid.toHex
  entityId : e.nodeId = 0 ∧ e.entityId = if t.kind = .node then 0 else t.entityId
  kind : e.kind = t.kind
  nodeName : e.nodeName = t.nodeName
  ns : ∀ M, utf8Len t.ns ≤ M → (demangleTopicName M e.ns).text = t.ns
  node : t.kind = .node → e.topic = none ∧ e.typeName = none ∧ e.typeHash = none ∧ e.qos = none
  typeName : t.kind ≠ .node → e.typeName = some (ddsTypeName t.info.typeName)
  typeHash : t.kind ≠ .node → e.typeHash = some (hashSegment t.info.typeHash)
  qos : t.kind ≠ .node → e.qos = some (qosText t.qos)
  topic : t.kind ≠ .node → ∃ topic, e.topic = some topic ∧
    ∀ M, utf8Len t.info.name ≤ M → (demangleTopicName M topic).text = t.info.name

def RoundTrips (N : Nat) (t : TokenSource) : Prop :=
  ∃ e, parse (t.key N).text = some e ∧ t.ReadsBack e

/-- The topic field of the token, as it is parsed. -/
def topicField (N : Nat) (t : TokenSource) : Option Text :=
  (parse (t.key N).text).bind fun e => e.topic

/-- The names are mangled in buffers of `mangledNameSize` bytes. -/
def NamesFit (t : TokenSource) : Prop :=
  utf8Len t.ns ≤ mangledNameSize ∧ (t.kind ≠ .node → utf8Len t.info.name ≤ mangledNameSize)

theorem key_eq (N : Nat) (t : TokenSource) :
    t.key N = (FixedString.empty.write (t.pieces mangled)).1 := by
  unfold key pieces
  split
  next node => rw [node]; rfl
  next entity => rw [entity]; rfl
  next entity => rw [entity]; rfl
  next entity => rw [entity]; rfl
  next entity => rw [entity]; rfl

theorem utf8Len_mangled (name : Text) : utf8Len (mangled name) ≤ utf8Len (name.map mangleChar) := by
  rw [mangled, mangleTopicName_text]
  exact String.utf8Len_le_of_sublist ((FixedString.clip_sublist _ name).map mangleChar)

theorem utf8Len_pieces (t : TokenSource) : utf8Len (t.pieces mangled).flatten ≤ utf8Len t.text := by
  have ns := utf8Len_mangled t.ns
  have name := utf8Len_mangled t.info.name
  rw [text]
  unfold pieces
  split
  · simp only [nodePieces, List.flatten_cons, List.flatten_nil, String.utf8Len_append]
    omega
  · simp only [entityHead, List.flatten_append, List.flatten_cons, List.flatten_nil,
      String.utf8Len_append]
    omega

variable {N : Nat} {t : TokenSource}

theorem key_text (room : utf8Len t.text ≤ N) : (t.key N).text = (t.pieces mangled).flatten := by
  have fits := t.utf8Len_pieces.trans room
  rw [key_eq]
  exact (FixedString.empty.write_of_room _ (by simpa using fits)).1

theorem slash_notMem_mangledName (name : Text) : '/' ∉ mangled name :=
  slash_notMem_mangled mangledNameSize name

def nodeChunks (t : TokenSource) : List Text :=
  [livelinessPrefix, decimal t.domainId.toNat, t.zid.toHex, ['0'], ['0'], t.kind.token, ['%'],
    mangled t.ns, t.nodeName]

def entityChunks (qos : Text) (t : TokenSource) : List Text :=
  [livelinessPrefix, decimal t.domainId.toNat, t.zid.toHex, ['0'], decimal t.entityId.toNat,
    t.kind.token, ['%'], mangled t.ns, t.nodeName, mangled t.info.name,
    ddsTypeName t.info.typeName, hashSegment t.info.typeHash, qos]

theorem qosString_text (qos : QoSProfile) : (toQosString qosStringSize qos).text = qosText qos :=
  toQosString_text qos (by decide)

theorem splitOn_node (formed : t.WellFormed) (node : t.kind = .node) :
    (t.pieces mangled).flatten.splitOn '/' = t.nodeChunks := by
  have joined : (t.pieces mangled).flatten = ['/'].intercalate t.nodeChunks := by
    rw [pieces, if_pos node]
    simp [nodePieces, nodeChunks, node, slash, List.intercalate]
  rw [joined]
  apply List.splitOn_intercalate
  · simp only [nodeChunks, List.forall_mem_cons]
    exact ⟨by decide, slash_notMem_decimal _, slash_notMem_toHex _, by decide, by decide,
      slash_notMem_token _, by decide, slash_notMem_mangledName _, formed.nodeName.2,
      fun _ member => nomatch member⟩
  · exact List.cons_ne_nil _ _

def head (t : TokenSource) : List Text :=
  entityHead mangled t.kind t.domainId t.zid t.entityId t.ns t.nodeName t.info

theorem splitOn_head (formed : t.WellFormed) (entity : t.kind ≠ .node) (qos : Text)
    (plain : '/' ∉ qos) : (t.head.flatten ++ qos).splitOn '/' = t.entityChunks qos := by
  obtain ⟨-, typeName, typeHash⟩ := formed.info entity
  have joined : t.head.flatten ++ qos = ['/'].intercalate (t.entityChunks qos) := by
    simp [head, entityHead, entityChunks, slash, List.intercalate, ddsTypeName]
  rw [joined]
  apply List.splitOn_intercalate
  · simp only [entityChunks, List.forall_mem_cons]
    exact ⟨by decide, slash_notMem_decimal _, slash_notMem_toHex _, by decide,
      slash_notMem_decimal _, slash_notMem_token _, by decide, slash_notMem_mangledName _,
      formed.nodeName.2, slash_notMem_mangledName _, typeName, slash_notMem_hashSegment typeHash,
      plain, List.forall_mem_nil _⟩
  · exact List.cons_ne_nil _ _

theorem pieces_entity (entity : t.kind ≠ .node) :
    t.pieces mangled = t.head ++ [qosText t.qos] := by
  rw [pieces, if_neg entity, qosString_text]
  rfl

/-- What the parser makes of a key with this QoS chunk. -/
def parsed (key qos : Text) (t : TokenSource) : LivelinessEntity where
  keyexpr := key
  domainId := t.domainId
  zid := t.zid.toHex
  nodeId := 0
  entityId := if t.kind = .node then 0 else t.entityId
  kind := t.kind
  ns := mangled t.ns
  nodeName := t.nodeName
  topic := (t.tail qos).map fun c => c.1
  typeName := (t.tail qos).map fun c => c.2.1
  typeHash := (t.tail qos).map fun c => c.2.2.1
  qos := (t.tail qos).map fun c => c.2.2.2

theorem zero_eq_decimal : ['0'] = decimal (0 : UInt32).toNat := by decide

theorem parse_node (formed : t.WellFormed) (node : t.kind = .node) (qos : Text) :
    parse (t.pieces mangled).flatten = some (t.parsed (t.pieces mangled).flatten qos) := by
  have chunks := splitOn_node formed node
  rw [nodeChunks, zero_eq_decimal] at chunks
  have read : parseTail t.kind [] = some (t.tail qos) := by
    rw [tail, if_pos node, node]
    rfl
  rw [parse_of_chunks chunks formed.nodeName.1 read, parsed, if_pos node]

theorem parse_entity (formed : t.WellFormed) (entity : t.kind ≠ .node) {qos : Text}
    (plain : '/' ∉ qos) :
    parse (t.head.flatten ++ qos) = some (t.parsed (t.head.flatten ++ qos) qos) := by
  have chunks := splitOn_head formed entity qos plain
  rw [entityChunks, zero_eq_decimal] at chunks
  have read : parseTail t.kind [mangled t.info.name, ddsTypeName t.info.typeName,
      hashSegment t.info.typeHash, qos] = some (t.tail qos) := by
    rw [tail, if_neg entity]
    cases kind : t.kind with
    | node => exact absurd kind entity
    | publisher | subscriber | serviceServer | serviceClient => rfl
  rw [parse_of_chunks chunks formed.nodeName.1 read, parsed, if_neg entity]

theorem parse_key (formed : t.WellFormed) (room : utf8Len t.text ≤ N) :
    parse (t.key N).text = some (t.parsed (t.key N).text (qosText t.qos)) := by
  rw [key_text room]
  by_cases node : t.kind = .node
  · exact parse_node formed node (qosText t.qos)
  · rw [pieces_entity node, List.flatten_append, List.flatten_singleton]
    exact parse_entity formed node (slash_notMem_qosText t.qos)

theorem demangles_iff {name : Text} (plain : '%' ∉ name) :
    (∀ M, utf8Len name ≤ M → (demangleTopicName M (mangled name)).text = name) ↔
      utf8Len name ≤ mangledNameSize := by
  constructor
  · intro back
    have whole := back (utf8Len name) le_rfl
    rw [mangled, demangle_mangle mangledNameSize (utf8Len name) plain le_rfl] at whole
    exact (FixedString.clip_eq_iff mangledNameSize name).mp whole
  · intro fits M room
    rw [mangled, demangle_mangle mangledNameSize M plain room]
    exact (FixedString.clip_eq_iff mangledNameSize name).mpr fits

theorem roundTrips_iff (formed : t.WellFormed) (room : utf8Len t.text ≤ N) :
    t.RoundTrips N ↔ t.NamesFit := by
  have parses := parse_key formed room
  constructor
  · rintro ⟨e, read, back⟩
    obtain rfl : t.parsed (t.key N).text (qosText t.qos) = e := Option.some.inj (parses.symm.trans read)
    refine ⟨(demangles_iff formed.ns).mp back.ns, fun entity => ?_⟩
    obtain ⟨topic, held, demangles⟩ := back.topic entity
    have same : mangled t.info.name = topic := by
      simpa [parsed, tail, entity] using held
    exact (demangles_iff (formed.info entity).1).mp (same ▸ demangles)
  · rintro ⟨ns, name⟩
    refine ⟨_, parses, ?_⟩
    exact {
      domainId := rfl
      zid := rfl
      entityId := ⟨rfl, rfl⟩
      kind := rfl
      nodeName := rfl
      ns := (demangles_iff formed.ns).mpr ns
      node := fun node => by simp [parsed, tail, node]
      typeName := fun entity => by simp [parsed, tail, entity]
      typeHash := fun entity => by simp [parsed, tail, entity]
      qos := fun entity => by simp [parsed, tail, entity]
      topic := fun entity => ⟨mangled t.info.name, by simp [parsed, tail, entity],
        (demangles_iff (formed.info entity).1).mpr (name entity)⟩ }

theorem topicField_eq (formed : t.WellFormed) (room : utf8Len t.text ≤ N)
    (entity : t.kind ≠ .node) :
    t.topicField N = some (mangled t.info.name) := by
  rw [topicField, parse_key formed room]
  simp [parsed, tail, entity]

end TokenSource

/-- Both tokens are read back as they were built, and different topics have different fields. -/
def TokensIdentify (N : Nat) (a b : TokenSource) : Prop :=
  a.RoundTrips N ∧ b.RoundTrips N ∧ (a.kind ≠ .node → b.kind ≠ .node → a.info.name ≠ b.info.name →
      a.topicField N ≠ b.topicField N)

theorem tokensIdentify_iff (N : Nat) (a b : TokenSource) (formed : a.WellFormed)
    (formedToo : b.WellFormed) (room : utf8Len a.text ≤ N) (roomToo : utf8Len b.text ≤ N) :
    TokensIdentify N a b ↔ a.NamesFit ∧ b.NamesFit := by
  have first := TokenSource.roundTrips_iff formed room
  have second := TokenSource.roundTrips_iff formedToo roomToo
  constructor
  · rintro ⟨back, backToo, -⟩
    exact ⟨first.mp back, second.mp backToo⟩
  · rintro ⟨fits, fitsToo⟩
    refine ⟨first.mpr fits, second.mpr fitsToo, fun entity entityToo different same => ?_⟩
    rw [TokenSource.topicField_eq formed room entity,
      TokenSource.topicField_eq formedToo roomToo entityToo] at same
    have mangledSame := Option.some.inj same
    rw [mangled, mangled, mangleTopicName_text, mangleTopicName_text,
      (FixedString.clip_eq_iff _ _).mpr (fits.2 entity),
      (FixedString.clip_eq_iff _ _).mpr (fitsToo.2 entityToo)] at mangledSame
    exact different
      (map_mangle_injective (formed.info entity).1 (formedToo.info entityToo).1 mangledSame)

/-- A publisher of strings on `name`, in the root namespace. -/
def talkerOn (name : Text) : TokenSource where
  kind := .publisher
  domainId := 7
  zid := ⟨fun _ => 0xAB⟩
  entityId := 11
  ns := ['/']
  nodeName := "talker".toList
  info := ⟨name, "std_msgs/msg/String".toList, [], 7⟩
  qos := ⟨.bestEffort, .volatile, .keepLast, 5⟩

theorem talkerOn_formed {name : Text} (plain : '%' ∉ name) : (talkerOn name).WellFormed where
  ns := show '%' ∉ ['/'] by decide
  nodeName := show "talker".toList ≠ [] ∧ '/' ∉ "talker".toList by decide
  info := fun _ => ⟨plain, show '/' ∉ ddsTypeName "std_msgs/msg/String".toList by decide +kernel,
    List.not_mem_nil⟩

theorem tokensIdentify_short : TokensIdentify 256 (talkerOn "/chatter".toList)
    (talkerOn "/chatter/raw".toList) :=
  (tokensIdentify_iff 256 _ _ (talkerOn_formed (by decide)) (talkerOn_formed (by decide))
    (by decide +kernel) (by decide +kernel)).mpr
    ⟨⟨by decide, fun _ => by decide⟩, ⟨by decide, fun _ => by decide⟩⟩

/-- A slash, a token of 63 letters, and one more letter. -/
def longTopic (last : Char) : Text := '/' :: (List.replicate 63 'a' ++ [last])

/-- Two topics that differ in their 65th byte have one topic field. -/
theorem token_claim_fails : ¬ ∀ (N : Nat) (a b : TokenSource), a.WellFormed → b.WellFormed →
    utf8Len a.text ≤ N → utf8Len b.text ≤ N → TokensIdentify N a b := by
  intro all
  have formed : ∀ last ∈ ['b', 'c'], (talkerOn (longTopic last)).WellFormed := by
    simp only [List.forall_mem_cons]
    exact ⟨talkerOn_formed (by decide), talkerOn_formed (by decide), fun _ member => nomatch member⟩
  have room : ∀ last ∈ ['b', 'c'], utf8Len (talkerOn (longTopic last)).text ≤ 256 := by
    simp only [List.forall_mem_cons]
    exact ⟨by decide +kernel, by decide +kernel, fun _ member => nomatch member⟩
  have field : ∀ last (listed : last ∈ ['b', 'c']),
      (talkerOn (longTopic last)).topicField 256 = some (mangled (longTopic last)) :=
    fun last listed => TokenSource.topicField_eq (formed last listed) (room last listed)
      EntityKind.noConfusion
  obtain ⟨-, -, apart⟩ := all 256 (talkerOn (longTopic 'b')) (talkerOn (longTopic 'c'))
    (formed _ (by decide)) (formed _ (by decide)) (room _ (by decide)) (room _ (by decide))
  apply apart (by decide) (by decide) (by decide)
  rw [field 'b' (by decide), field 'c' (by decide)]
  exact congrArg some (by decide +kernel)

end NanoRos.Zenoh
