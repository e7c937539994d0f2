import NanoRos.Zenoh.Endpoints
import NanoRos.Zenoh.RoundTrip

/-! A service client looks for its server's token in the graph. -/

namespace NanoRos.Zenoh

open String (utf8Len)

namespace ServiceClient

variable {K : Nat}

/-- The predicate `service_is_ready` walks the graph with. -/
def isServer (client : ServiceClient K) (e : LivelinessEntity) : Bool :=
  e.kind = .serviceServer && e.domainId = client.domainId &&
    e.topic = some client.serviceMangled.text && e.typeName = some client.ddsType.text

/-- One token of the graph; what does not parse is skipped. -/
def recognises (client : ServiceClient K) (key : Text) : Bool :=
  match parse key with
  | some e => client.isServer e
  | none => false

inductive Readiness where
  | ready (yes : Bool)
  | wouldBlock
  deriving DecidableEq

/-- `service_is_ready` over the cached tokens; `dropped` of them had no room. -/
def serviceIsReady (client : ServiceClient K) (tokens : List Text) (dropped : Nat) : Readiness :=
  if tokens.any client.recognises then .ready true
  else if dropped = 0 then .ready false
  else .wouldBlock

theorem serviceIsReady_iff (client : ServiceClient K) (tokens : List Text) :
    client.serviceIsReady tokens 0 = .ready true ↔
      ∃ token ∈ tokens, client.recognises token = true := by
  rw [serviceIsReady, ← List.any_eq_true]
  by_cases found : tokens.any client.recognises = true
  · simp [found]
  · simp [found]

theorem recognises_of_parse (client : ServiceClient K) {key : Text} {e : LivelinessEntity}
    (parsed : parse key = some e) : client.recognises key = client.isServer e := by
  rw [recognises, parsed]

end ServiceClient

namespace TokenSource

/-- The buffer holds the token's text up to its QoS. -/
def HeadFits (N : Nat) (t : TokenSource) : Prop := utf8Len t.head.flatten ≤ N

theorem key_entity (N : Nat) {t : TokenSource} (entity : t.kind ≠ .node) :
    t.key N = (FixedString.empty.write (t.head ++ [qosText t.qos])).1 := by
  rw [key_eq, pieces_entity entity]

theorem parse_of_headFits {N : Nat} {t : TokenSource} (formed : t.WellFormed)
    (entity : t.kind ≠ .node) (fits : t.HeadFits N) :
    ∃ qos, parse (t.key N).text = some (t.parsed (t.key N).text qos) := by
  obtain ⟨longer, text, goesOn⟩ := (FixedString.empty : FixedString N).write_append t.head
    [qosText t.qos] (by simpa [HeadFits] using fits)
  obtain ⟨kept, listed, written⟩ := longer.write_singleton (qosText t.qos)
  have plain : '/' ∉ kept := by
    simp only [List.mem_cons, List.not_mem_nil, or_false] at listed
    obtain rfl | rfl := listed
    · exact slash_notMem_qosText t.qos
    · exact List.not_mem_nil
  have key : (t.key N).text = t.head.flatten ++ kept := by
    rw [key_entity N entity, goesOn, written, text, FixedString.text_empty, List.nil_append]
  rw [key]
  exact ⟨kept, parse_entity formed entity plain⟩

theorem count_take_le (c : Char) (pieces : List Text) (last : Text) {k : Nat}
    (short : k ≤ pieces.length) :
    (((pieces ++ [last]).take k).flatten).count c ≤ pieces.flatten.count c := by
  rw [List.take_append_of_le_length short]
  have split := congrArg (fun all => all.flatten.count c) (List.take_append_drop k pieces)
  simp only [List.flatten_append, List.count_append] at split
  omega

theorem parse_of_not_headFits {N : Nat} {t : TokenSource} (formed : t.WellFormed)
    (entity : t.kind ≠ .node) (long : ¬ t.HeadFits N) {e : LivelinessEntity}
    (read : parse (t.key N).text = some e) : e.kind = .node := by
  by_contra other
  rw [HeadFits] at long
  obtain ⟨before, ends⟩ : ∃ before, t.head = before ++ [slash] := by
    apply List.getLast?_eq_some_iff.mp
    rw [head, entityHead, List.getLast?_append]
    rfl
  have whole : (before.flatten ++ ['/']).count '/' = 12 := by
    have chunks := congrArg List.length (splitOn_head formed entity [] (by simp))
    rw [length_splitOn, List.append_nil, ends, List.flatten_append] at chunks
    simpa [entityChunks, slash] using chunks
  have full : N < utf8Len (FixedString.empty : FixedString N).text + utf8Len t.head.flatten := by
    rw [FixedString.text_empty, String.utf8Len_nil]
    omega
  obtain ⟨k, short, text, -⟩ := FixedString.empty.write_of_full _ full
  rw [FixedString.text_empty, List.nil_append] at text
  have key : (t.key N).text = (t.head.take k).flatten := by
    rw [key_entity N entity, FixedString.write_append_of_full _ _ full, text]
  have chunks := length_of_parse read other
  rw [length_splitOn, key, ends] at chunks
  have fewer := count_take_le '/' before slash (k := k) (by
    rw [ends, List.length_append, List.length_singleton] at short
    omega)
  rw [List.count_append] at whole
  have one : ['/'].count '/' = 1 := by decide
  omega

end TokenSource

section

variable {K : Nat} {service : ServiceInfo} {client : ServiceClient K}

theorem client_fields (made : ServiceClient.new K service = .ok client) :
    client.domainId = service.domainId ∧ client.serviceMangled = mangleTopicName K service.name ∧
      client.ddsType.text = ddsTypeName service.typeName := by
  by_cases fits : utf8Len (ddsTypeName service.typeName) ≤ K
  · rw [new_of_fits fits] at made
    obtain rfl := Except.ok.inj made
    exact ⟨rfl, rfl, (FixedString.empty.write_of_room _ (by simpa [ddsTypeName] using fits)).1⟩
  · rw [new_of_long (by omega)] at made
    cases made

/-- The server of the token is the client's: domain, name and type. -/
def SameService (t : TokenSource) (service : ServiceInfo) : Prop :=
  t.domainId = service.domainId ∧ t.info.name = service.name ∧
    SameType t.info.typeName service.typeName

/-- A client whose own name fits recognises the token of a server when the token's head is in its
buffer, and the domain, the type and as much of the server's name as a token keeps are its own. -/
theorem recognises_iff_kept {N : Nat} {t : TokenSource} (server : t.kind = .serviceServer)
    (formed : t.WellFormed) (plain : '%' ∉ service.name) (spelled : TypeSpelling t.info.typeName)
    (spelledToo : TypeSpelling service.typeName) (fits : utf8Len service.name ≤ K)
    (made : ServiceClient.new K service = .ok client) :
    client.recognises (t.key N).text = true ↔ t.HeadFits N ∧ t.domainId = service.domainId ∧
      FixedString.clip mangledNameSize t.info.name = service.name ∧
      SameType t.info.typeName service.typeName := by
  obtain ⟨domain, name, type⟩ := client_fields made
  have entity : t.kind ≠ .node := by simp [server]
  have nameIff : mangled t.info.name = client.serviceMangled.text ↔
      FixedString.clip mangledNameSize t.info.name = service.name := by
    rw [name, mangled, mangleTopicName_text, mangleTopicName_text,
      (FixedString.clip_eq_iff K service.name).mpr fits]
    constructor
    · exact map_mangle_injective (plain_clip _ (formed.info entity).1) plain
    · intro same
      rw [same]
  by_cases room : t.HeadFits N
  · obtain ⟨qos, parsed⟩ := TokenSource.parse_of_headFits formed entity room
    have topicField : (t.parsed (t.key N).text qos).topic = some (mangled t.info.name) := by
      simp [TokenSource.parsed, TokenSource.tail, server]
    have typeField :
        (t.parsed (t.key N).text qos).typeName = some (ddsTypeName t.info.typeName) := by
      simp [TokenSource.parsed, TokenSource.tail, server]
    have kindField : (t.parsed (t.key N).text qos).kind = .serviceServer := server
    have domainField : (t.parsed (t.key N).text qos).domainId = t.domainId := rfl
    rw [client.recognises_of_parse parsed, ServiceClient.isServer, topicField, typeField,
      kindField, domainField]
    simp only [Bool.and_eq_true, decide_eq_true_eq, Option.some.injEq, nameIff, domain, type,
      ddsTypeName_eq_iff spelled spelledToo, room, true_and, and_assoc]
  · have missed : client.recognises (t.key N).text = false := by
      cases read : parse (t.key N).text with
      | none => rw [ServiceClient.recognises, read]
      | some e =>
        have node := TokenSource.parse_of_not_headFits formed entity room read
        rw [client.recognises_of_parse read, ServiceClient.isServer, node]
        rfl
    simp [missed, room]

/-- When the token tells its server: for the client's own service, its name and its head must fit;
another name of that domain and type must not be what the mangling leaves of the server's. -/
def Tells (N : Nat) (t : TokenSource) (service : ServiceInfo) : Prop :=
  t.domainId = service.domainId → SameType t.info.typeName service.typeName →
    (t.info.name = service.name → utf8Len t.info.name ≤ mangledNameSize ∧ t.HeadFits N) ∧
      (t.info.name ≠ service.name →
        FixedString.clip mangledNameSize t.info.name = service.name → ¬ t.HeadFits N)

theorem finds_server_iff {N : Nat} {t : TokenSource} (server : t.kind = .serviceServer)
    (formed : t.WellFormed) (plain : '%' ∉ service.name) (spelled : TypeSpelling t.info.typeName)
    (spelledToo : TypeSpelling service.typeName) (fits : utf8Len service.name ≤ K)
    (made : ServiceClient.new K service = .ok client) :
    (client.recognises (t.key N).text = true ↔ SameService t service) ↔ Tells N t service := by
  rw [recognises_iff_kept server formed plain spelled spelledToo fits made]
  have whole := FixedString.clip_eq_iff mangledNameSize t.info.name
  constructor
  · intro tells domain type
    constructor
    · intro name
      obtain ⟨head, -, clipped, -⟩ := tells.mpr ⟨domain, name, type⟩
      exact ⟨whole.mp (clipped.trans name.symm), head⟩
    · intro other clipped head
      exact other (tells.mp ⟨head, domain, clipped, type⟩).2.1
  · intro tells
    constructor
    · rintro ⟨head, domain, clipped, type⟩
      by_cases name : t.info.name = service.name
      · exact ⟨domain, name, type⟩
      · exact absurd head ((tells domain type).2 name clipped)
    · rintro ⟨domain, name, type⟩
      obtain ⟨short, head⟩ := (tells domain type).1 name
      exact ⟨head, domain, (whole.mpr short).trans name, type⟩

end

/-- A server of `AddTwoInts` on `name`, in the root namespace. -/
def adderOn (name : Text) : TokenSource where
  kind := .serviceServer
  domainId := 0
  zid := ⟨fun _ => 0xAB⟩
  entityId := 11
  ns := ['/']
  nodeName := "adder".toList
  info := ⟨name, "example_interfaces::srv::dds_::AddTwoInts_".toList, [], 0⟩
  qos := ⟨.reliable, .volatile, .keepLast, 10⟩

/-- What a client of it asks for, in the other spelling. -/
def adderClient (name : Text) : ServiceInfo :=
  ⟨name, "example_interfaces/srv/AddTwoInts".toList, [], 0⟩

theorem adderOn_formed {name : Text} (plain : '%' ∉ name) : (adderOn name).WellFormed where
  ns := show '%' ∉ ['/'] by decide
  nodeName := show "adder".toList ≠ [] ∧ '/' ∉ "adder".toList by decide
  info := fun _ => ⟨plain,
    show '/' ∉ ddsTypeName "example_interfaces::srv::dds_::AddTwoInts_".toList by decide +kernel,
    List.not_mem_nil⟩

theorem adderOn_spelled (name : Text) : TypeSpelling (adderOn name).info.typeName :=
  ⟨.inl (show [':', ':'] <:+: "example_interfaces::srv::dds_::AddTwoInts_".toList by
      decide +kernel),
    show '/' ∉ ddsTypeName "example_interfaces::srv::dds_::AddTwoInts_".toList by decide +kernel⟩

theorem adderClient_spelled (name : Text) : TypeSpelling (adderClient name).typeName :=
  ⟨.inr (show ':' ∉ "example_interfaces/srv/AddTwoInts".toList by decide),
    show '/' ∉ ddsTypeName "example_interfaces/srv/AddTwoInts".toList by decide +kernel⟩

theorem adderClient_made (name : Text) :
    ∃ client, ServiceClient.new 256 (adderClient name) = .ok client :=
  ⟨_, new_of_fits (show utf8Len (ddsTypeName "example_interfaces/srv/AddTwoInts".toList) ≤ 256 by
    decide +kernel)⟩

theorem finds_server_short : ∃ client : ServiceClient 256,
    ServiceClient.new 256 (adderClient "/add_two_ints".toList) = .ok client ∧
      (client.recognises ((adderOn "/add_two_ints".toList).key 256).text = true ↔
        SameService (adderOn "/add_two_ints".toList) (adderClient "/add_two_ints".toList)) := by
  obtain ⟨client, made⟩ := adderClient_made "/add_two_ints".toList
  refine ⟨client, made, ?_⟩
  apply (finds_server_iff rfl (adderOn_formed (by decide)) (by decide) (adderOn_spelled _)
    (adderClient_spelled _) (by decide +kernel) made).mpr
  exact fun _ _ => ⟨fun _ => ⟨by decide +kernel, by rw [TokenSource.HeadFits]; decide +kernel⟩,
    fun other => absurd rfl other⟩

/-- A server and its client on one name of 65 bytes do not meet. -/
theorem service_claim_fails : ¬ ∀ (K N : Nat) (service : ServiceInfo) (client : ServiceClient K)
    (t : TokenSource), t.kind = .serviceServer → t.WellFormed → '%' ∉ service.name →
    TypeSpelling t.info.typeName → TypeSpelling service.typeName → utf8Len service.name ≤ K →
    ServiceClient.new K service = .ok client → utf8Len t.text ≤ N →
    (client.recognises (t.key N).text = true ↔ SameService t service) := by
  intro all
  obtain ⟨client, made⟩ := adderClient_made (longTopic 'a')
  have formed : (adderOn (longTopic 'a')).WellFormed := adderOn_formed (by decide +kernel)
  have spelled := adderOn_spelled (longTopic 'a')
  have spelledToo := adderClient_spelled (longTopic 'a')
  have same : SameType (adderOn (longTopic 'a')).info.typeName
      (adderClient (longTopic 'a')).typeName :=
    (ddsTypeName_eq_iff spelled spelledToo).mp (by decide +kernel)
  have found := (all 256 256 (adderClient (longTopic 'a')) client (adderOn (longTopic 'a')) rfl
    formed (by decide +kernel) spelled spelledToo (by decide +kernel) made
    (by decide +kernel)).mpr ⟨rfl, rfl, same⟩
  rw [recognises_iff_kept rfl formed (by decide +kernel) spelled spelledToo (by decide +kernel)
    made] at found
  exact absurd found.2.2.1 (by decide +kernel)

end NanoRos.Zenoh
