import NanoRos.Zenoh.Liveliness

/-! Entity creation, as far as the entity's key decides it: the key is rendered into a string of `K`
bytes, and what was rendered is held against a buffer one byte longer. -/

namespace NanoRos.Zenoh

open String (utf8Len)

inductive TransportError where
  | topicNameInvalid
  deriving DecidableEq

def keyexprBufferSize (K : Nat) : Nat := K + 1

/-- The null-terminated copy of the key, by its text. -/
def keyexprBuf {K : Nat} (key : FixedString K) : Except TransportError Text :=
  if keyexprBufferSize K ≤ utf8Len key.text then .error .topicNameInvalid else .ok key.text

structure ServiceClient (K : Nat) where
  keyexpr : Text
  serviceMangled : FixedString K
  ddsType : FixedString K
  domainId : UInt32

/-- `ZenohServiceClient::new`. -/
def ServiceClient.new (K : Nat) (service : ServiceInfo) :
    Except TransportError (ServiceClient K) := do
  let keyexpr ← keyexprBuf (toKeyWildcard K service)
  let serviceMangled := mangleTopicName K service.name
  let (ddsType, written) := (FixedString.empty : FixedString K).write (ddsTypePieces service.typeName)
  if written then
    .ok {
      keyexpr
      serviceMangled
      ddsType
      domainId := service.domainId }
  else .error .topicNameInvalid

/-- The entities that have a data key. -/
inductive EndpointKind where
  | publisher
  | subscriber
  | serviceServer
  | serviceClient
  deriving DecidableEq

def createKey (distro : Distro) (K : Nat) (kind : EndpointKind) (info : EndpointInfo) :
    Except TransportError Text :=
  match kind with
  | .publisher => keyexprBuf (toKey distro K info)
  | .subscriber => keyexprBuf (toKeyWildcard K info)
  | .serviceServer => keyexprBuf (toKey distro K info)
  | .serviceClient => (ServiceClient.new K info).map fun client => client.keyexpr

/-- What ends the key of an entity of this kind. -/
def lastPieces (distro : Distro) (kind : EndpointKind) (info : EndpointInfo) : List Text :=
  match kind with
  | .publisher | .serviceServer => hashPieces distro info
  | .subscriber | .serviceClient => ["/*".toList]

def keyText (distro : Distro) (kind : EndpointKind) (info : EndpointInfo) : Text :=
  (keyPieces info (lastPieces distro kind info)).flatten

theorem keyexprBuf_eq {K : Nat} (key : FixedString K) : keyexprBuf key = .ok key.text := by
  have fits := key.fits
  exact if_neg (by rw [keyexprBufferSize]; omega)

theorem ddsType_written_iff (K : Nat) (typeName : Text) :
    ((FixedString.empty : FixedString K).write (ddsTypePieces typeName)).2 = true ↔
      utf8Len (ddsTypeName typeName) ≤ K := by
  constructor
  · intro written
    by_contra long
    obtain ⟨-, -, -, stopped⟩ := (FixedString.empty : FixedString K).write_of_full
      (ddsTypePieces typeName) (by
        rw [FixedString.text_empty, String.utf8Len_nil]
        rw [ddsTypeName] at long
        omega)
    rw [stopped] at written
    cases written
  · intro fits
    exact (FixedString.empty.write_of_room _ (by simpa [ddsTypeName] using fits)).2

theorem new_of_fits {K : Nat} {service : ServiceInfo}
    (fits : utf8Len (ddsTypeName service.typeName) ≤ K) :
    ServiceClient.new K service = .ok {
      keyexpr := (toKeyWildcard K service).text
      serviceMangled := mangleTopicName K service.name
      ddsType := (FixedString.empty.write (ddsTypePieces service.typeName)).1
      domainId := service.domainId } := by
  rw [ServiceClient.new, keyexprBuf_eq]
  exact if_pos ((ddsType_written_iff K service.typeName).mpr fits)

theorem new_of_long {K : Nat} {service : ServiceInfo}
    (long : K < utf8Len (ddsTypeName service.typeName)) :
    ServiceClient.new K service = .error .topicNameInvalid := by
  rw [ServiceClient.new, keyexprBuf_eq]
  exact if_neg fun written =>
    absurd ((ddsType_written_iff K service.typeName).mp written) (Nat.not_le.mpr long)

/-! What a key tells. -/

structure Endpoint where
  kind : EndpointKind
  info : EndpointInfo

namespace Endpoint

def create (distro : Distro) (K : Nat) (e : Endpoint) : Except TransportError Text :=
  createKey distro K e.kind e.info

def text (distro : Distro) (e : Endpoint) : Text := keyText distro e.kind e.info

def lastChunk (distro : Distro) (e : Endpoint) : Text :=
  match e.kind with
  | .publisher | .serviceServer =>
    match distro with
    | .humble => "TypeHashNotSupported".toList
    | .iron => e.info.typeHash
  | .subscriber | .serviceClient => ['*']

structure WellFormed (distro : Distro) (e : Endpoint) : Prop where
  typeName : TypeSpelling e.info.typeName
  lastChunk : '/' ∉ e.lastChunk distro

/-- One topic or service: a domain, a name and a type. -/
def Same (a b : Endpoint) : Prop :=
  a.info.domainId = b.info.domainId ∧ trimSlashes a.info.name = trimSlashes b.info.name ∧
    SameType a.info.typeName b.info.typeName

theorem text_eq (distro : Distro) (e : Endpoint) :
    e.text distro = decimal e.info.domainId.toNat ++ '/' :: (trimSlashes e.info.name ++
      '/' :: (ddsTypeName e.info.typeName ++ '/' :: e.lastChunk distro)) := by
  have last : (lastPieces distro e.kind e.info).flatten = '/' :: e.lastChunk distro := by
    unfold lastPieces lastChunk
    cases e.kind <;> cases distro <;> simp [hashPieces]
  rw [text, keyText, keyPieces, List.flatten_append, List.flatten_append, last]
  simp [ddsTypeName]

variable {distro : Distro} {e : Endpoint} {K : Nat}

theorem splitOn_text (formed : e.WellFormed distro) :
    (e.text distro).splitOn '/' = decimal e.info.domainId.toNat ::
      ((trimSlashes e.info.name).splitOn '/' ++
        [ddsTypeName e.info.typeName, e.lastChunk distro]) := by
  rw [text_eq, List.splitOn_append_cons_self_of_not_mem (slash_notMem_decimal _),
    List.splitOn_append_cons_self,
    List.splitOn_append_cons_self_of_not_mem formed.typeName.rendered,
    List.splitOn_eq_singleton formed.lastChunk]

theorem same_of_text {a b : Endpoint} (formed : a.WellFormed distro)
    (formedToo : b.WellFormed distro) (same : a.text distro = b.text distro) : a.Same b := by
  have chunks := congrArg (List.splitOn '/') same
  rw [splitOn_text formed, splitOn_text formedToo] at chunks
  obtain ⟨domain, rest⟩ := List.cons.inj chunks
  obtain ⟨name, last⟩ := List.append_inj' rest rfl
  have joined := congrArg (List.intercalate ['/']) name
  rw [List.intercalate_splitOn, List.intercalate_splitOn] at joined
  refine ⟨UInt32.toNat_inj.mp (decimal_injective domain), joined, ?_⟩
  exact (ddsTypeName_eq_iff formed.typeName formedToo.typeName).mp (List.cons.inj last).1

/-- The one refusal there is: a client whose type alone is too long. -/
def TypeRefused (K : Nat) (e : Endpoint) : Prop :=
  e.kind = .serviceClient ∧ K < utf8Len (ddsTypeName e.info.typeName)

theorem create_of_refused (refused : e.TypeRefused K) :
    e.create distro K = .error .topicNameInvalid := by
  rw [create, createKey.eq_def, refused.1]
  simp only [new_of_long refused.2]
  rfl

theorem create_of_not_refused (accepted : ¬ e.TypeRefused K) :
    e.create distro K = .ok ((FixedString.empty : FixedString K).write
      (keyPieces e.info (lastPieces distro e.kind e.info))).1.text := by
  rw [create, createKey.eq_def]
  cases kind : e.kind with
  | publisher | subscriber | serviceServer => exact keyexprBuf_eq _
  | serviceClient =>
    have fits : utf8Len (ddsTypeName e.info.typeName) ≤ K := by
      by_contra long
      exact accepted ⟨kind, by omega⟩
    simp only [new_of_fits fits, Except.map]
    rfl

/-- The key is the whole text, or the endpoint is refused. -/
def Kept (distro : Distro) (K : Nat) (e : Endpoint) : Prop :=
  utf8Len (e.text distro) ≤ K ∨ e.TypeRefused K

theorem text_of_created {key : Text} (kept : e.Kept distro K)
    (created : e.create distro K = .ok key) : key = e.text distro := by
  by_cases refused : e.TypeRefused K
  · rw [create_of_refused refused] at created
    cases created
  · have fits := kept.resolve_right refused
    rw [create_of_not_refused refused] at created
    rw [← Except.ok.inj created]
    exact (FixedString.empty.write_of_room _ (by simpa [text, keyText] using fits)).1

end Endpoint

/-- A name too long is refused, and endpoints on one key are one endpoint. -/
def KeysIdentify (distro : Distro) (K : Nat) (a b : Endpoint) : Prop :=
  (∀ e ∈ [a, b], K < utf8Len (e.text distro) → e.create distro K = .error .topicNameInvalid) ∧
    ∀ key, a.create distro K = .ok key → b.create distro K = .ok key → a.Same b

theorem kept_of_refuses {distro : Distro} {K : Nat} {e : Endpoint}
    (refuses : K < utf8Len (e.text distro) → e.create distro K = .error .topicNameInvalid) :
    e.Kept distro K := by
  by_cases refused : e.TypeRefused K
  · exact .inr refused
  · apply Or.inl
    by_contra long
    have error := refuses (by omega)
    rw [Endpoint.create_of_not_refused refused] at error
    cases error

theorem keysIdentify_iff (distro : Distro) (K : Nat) (a b : Endpoint)
    (formed : a.WellFormed distro) (formedToo : b.WellFormed distro) :
    KeysIdentify distro K a b ↔ a.Kept distro K ∧ b.Kept distro K := by
  constructor
  · rintro ⟨refuses, -⟩
    exact ⟨kept_of_refuses (refuses a (by simp)), kept_of_refuses (refuses b (by simp))⟩
  · rintro ⟨kept, keptToo⟩
    constructor
    · have long : ∀ e : Endpoint, e.Kept distro K → K < utf8Len (e.text distro) →
          e.create distro K = .error .topicNameInvalid :=
        fun e kept long => Endpoint.create_of_refused (kept.resolve_left (by omega))
      simp only [List.forall_mem_cons]
      exact ⟨long a kept, long b keptToo, fun _ member => nomatch member⟩
    · intro key created createdToo
      apply Endpoint.same_of_text formed formedToo
      rw [← Endpoint.text_of_created kept created, ← Endpoint.text_of_created keptToo createdToo]

def stringsOn (name : Text) : Endpoint :=
  ⟨.publisher, ⟨name, "std_msgs/msg/String".toList, [], 0⟩⟩

theorem stringsOn_formed (name : Text) : (stringsOn name).WellFormed .humble where
  typeName := ⟨.inr (show ':' ∉ "std_msgs/msg/String".toList by decide),
    show '/' ∉ ddsTypeName "std_msgs/msg/String".toList by decide +kernel⟩
  lastChunk := show '/' ∉ "TypeHashNotSupported".toList by decide

theorem keysIdentify_short : KeysIdentify .humble 256 (stringsOn "/chatter".toList)
    (stringsOn "/chatter/raw".toList) :=
  (keysIdentify_iff .humble 256 _ _ (stringsOn_formed _) (stringsOn_formed _)).mpr
    ⟨.inl (by decide +kernel), .inl (by decide +kernel)⟩

/-- A name of 246 bytes: with the domain it leaves nine for the rest of the key. -/
def longName : Text := '/' :: List.replicate 245 'a'

/-- One key for two topics: the first stops after its type's package, the second after its
name. -/
theorem key_claim_fails : ¬ ∀ (distro : Distro) (K : Nat) (a b : Endpoint), a.WellFormed distro →
    b.WellFormed distro → KeysIdentify distro K a b := by
  intro all
  obtain ⟨-, identify⟩ := all .humble 256 (stringsOn longName)
    (stringsOn (longName ++ "/std_msgs".toList)) (stringsOn_formed _) (stringsOn_formed _)
  have created : ∀ name ∈ [longName, longName ++ "/std_msgs".toList],
      (stringsOn name).create .humble 256 =
        .ok ("0/".toList ++ List.replicate 245 'a' ++ "/std_msgs".toList) := by
    decide +kernel
  have same := identify _ (created _ (by simp)) (created _ (by simp))
  exact absurd same.2.1 (by decide +kernel)

end NanoRos.Zenoh
