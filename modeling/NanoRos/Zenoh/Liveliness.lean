import Mathlib.Data.List.GetD
import NanoRos.Zenoh.KeyExpr

/-! Liveliness tokens: the five builders, and the parser that reads them back. -/

namespace NanoRos.Zenoh

open String (utf8Len)

def mangledNameSize : Nat := 64
def qosStringSize : Nat := 32

structure ZenohId where
  id : Fin 16 → UInt8

def hexChars : List Char := "0123456789abcdef".toList

def hexChar (nibble : UInt8) : Char := hexChars.getD nibble.toNat '0'

/-- `ZenohId::to_hex_bytes`, from the last byte to the first. -/
def ZenohId.toHex (zid : ZenohId) : Text :=
  (List.finRange 16).flatMap fun i =>
    let byte := zid.id (15 - i)
    [hexChar (byte >>> 4), hexChar (byte &&& 0xf)]

inductive EntityKind where
  | node
  | publisher
  | subscriber
  | serviceServer
  | serviceClient
  deriving DecidableEq

def EntityKind.token : EntityKind → Text
  | .node => ['N', 'N']
  | .publisher => ['M', 'P']
  | .subscriber => ['M', 'S']
  | .serviceServer => ['S', 'S']
  | .serviceClient => ['S', 'C']

def EntityKind.fromToken (token : Text) : Option EntityKind :=
  if token = EntityKind.node.token then some .node
  else if token = EntityKind.publisher.token then some .publisher
  else if token = EntityKind.subscriber.token then some .subscriber
  else if token = EntityKind.serviceServer.token then some .serviceServer
  else if token = EntityKind.serviceClient.token then some .serviceClient
  else none

/-- A parsed token; names stay mangled. -/
structure LivelinessEntity where
  keyexpr : Text
  domainId : UInt32
  zid : Text
  nodeId : UInt32
  entityId : UInt32
  kind : EntityKind
  ns : Text
  nodeName : Text
  topic : Option Text
  typeName : Option Text
  typeHash : Option Text
  qos : Option Text
  deriving DecidableEq

def hashSegment (typeHash : Text) : Text :=
  if typeHash = [] then "TypeHashNotSupported".toList else typeHash

def mangleChar (c : Char) : Char := if c = '/' then '%' else c
def demangleChar (c : Char) : Char := if c = '%' then '/' else c

def mangleTopicName (N : Nat) (topic : Text) : FixedString N :=
  topic.foldl (fun mangled c => mangled.pushOrDrop (mangleChar c)) .empty

def demangleTopicName (N : Nat) (mangled : Text) : FixedString N :=
  mangled.foldl (fun out c => out.pushOrDrop (demangleChar c)) .empty

def livelinessPrefix : Text := "@ros2_lv".toList

def slash : Text := ['/']

def mangled (name : Text) : Text := (mangleTopicName mangledNameSize name).text

def nodePieces (mangle : Text → Text) (domainId : UInt32) (zid : ZenohId) (ns nodeName : Text) :
    List Text :=
  [livelinessPrefix, slash, decimal domainId.toNat, slash, zid.toHex, slash, "0/0".toList, slash,
    EntityKind.node.token, "/%/".toList, mangle ns, slash, nodeName]

def nodeKeyexpr (N : Nat) (domainId : UInt32) (zid : ZenohId) (ns nodeName : Text) :
    FixedString N :=
  (FixedString.empty.write (nodePieces mangled domainId zid ns nodeName)).1

def entityHead (mangle : Text → Text) (kind : EntityKind) (domainId : UInt32) (zid : ZenohId)
    (entityId : UInt32) (ns nodeName : Text) (topic : EndpointInfo) : List Text :=
  [livelinessPrefix, slash, decimal domainId.toNat, slash, zid.toHex, "/0/".toList,
    decimal entityId.toNat, slash, kind.token, "/%/".toList, mangle ns, slash, nodeName, slash,
    mangle topic.name, slash] ++ ddsTypePieces topic.typeName ++
    [slash, hashSegment topic.typeHash, slash]

/-- What the four builders of an entity's token share. -/
def entityKeyexpr (kind : EntityKind) (N : Nat) (domainId : UInt32) (zid : ZenohId)
    (entityId : UInt32) (ns nodeName : Text) (topic : EndpointInfo) (qos : QoSProfile) :
    FixedString N :=
  (FixedString.empty.write
    (entityHead mangled kind domainId zid entityId ns nodeName topic ++
      [(toQosString qosStringSize qos).text])).1

def publisherKeyexpr (N : Nat) := entityKeyexpr .publisher N
def subscriberKeyexpr (N : Nat) := entityKeyexpr .subscriber N
def serviceServerKeyexpr (N : Nat) := entityKeyexpr .serviceServer N
def serviceClientKeyexpr (N : Nat) := entityKeyexpr .serviceClient N

/-- A sign that digits follow is left out. -/
def unsigned : Text → Text
  | '+' :: d :: rest => d :: rest
  | s => s

/-- `str::parse::<u32>`. -/
def parseU32 (s : Text) : Option UInt32 :=
  let digits := unsigned s
  let value := Nat.ofDigitChars 10 digits 0
  if digits ≠ [] ∧ digits.all Char.isDigit ∧ value < 2 ^ 32 then some (UInt32.ofNat value)
  else none

/-- The chunks after the node name: none for a node, four for every other entity. -/
def parseTail : EntityKind → List Text → Option (Option (Text × Text × Text × Text))
  | .node, [] => some none
  | .node, _ => none
  | _, [topic, typeName, typeHash, qos] => some (some (topic, typeName, typeHash, qos))
  | _, _ => none

def parse (key : Text) : Option LivelinessEntity :=
  match key.splitOn '/' with
  | first :: domain :: zid :: node :: entity :: kind :: enclave :: ns :: nodeName :: rest => do
    guard (first = livelinessPrefix)
    let domainId ← parseU32 domain
    let nodeId ← parseU32 node
    let entityId ← parseU32 entity
    let kind ← EntityKind.fromToken kind
    guard (enclave ≠ [])
    guard (nodeName ≠ [])
    let tail ← parseTail kind rest
    some {
      keyexpr := key
      domainId
      zid
      nodeId
      entityId
      kind
      ns
      nodeName
      topic := tail.map fun t => t.1
      typeName := tail.map fun t => t.2.1
      typeHash := tail.map fun t => t.2.2.1
      qos := tail.map fun t => t.2.2.2 }
  | _ => none

/-! Names. -/

theorem mangleChar_utf8Size (c : Char) : (mangleChar c).utf8Size = c.utf8Size := by
  rw [mangleChar]
  split
  next same => rw [same]; decide
  next => rfl

theorem demangleChar_mangleChar {c : Char} (plain : c ≠ '%') :
    demangleChar (mangleChar c) = c := by
  rw [mangleChar]
  split
  next same => rw [same]; decide
  next => exact if_neg plain

theorem mangleChar_ne_slash (c : Char) : mangleChar c ≠ '/' := by
  rw [mangleChar]
  split
  · decide
  · assumption

theorem mangleTopicName_text (N : Nat) (topic : Text) :
    (mangleTopicName N topic).text = (FixedString.clip N topic).map mangleChar := by
  rw [← FixedString.clip_map N mangleChar mangleChar_utf8Size, FixedString.clip,
    FixedString.pushAll, List.foldl_map]
  rfl

theorem demangleTopicName_text (N : Nat) (mangled : Text) :
    (demangleTopicName N mangled).text = FixedString.clip N (mangled.map demangleChar) := by
  rw [FixedString.clip, FixedString.pushAll, List.foldl_map]
  rfl

theorem map_demangle_mangle {name : Text} (plain : '%' ∉ name) :
    (name.map mangleChar).map demangleChar = name := by
  rw [List.map_map]
  calc
    name.map (demangleChar ∘ mangleChar) = name.map id :=
      List.map_congr_left fun c member =>
        demangleChar_mangleChar fun same => plain (same ▸ member)
    _ = name := List.map_id name

theorem map_mangle_injective {a b : Text} (plain : '%' ∉ a) (plainToo : '%' ∉ b)
    (same : a.map mangleChar = b.map mangleChar) : a = b := by
  rw [← map_demangle_mangle plain, same, map_demangle_mangle plainToo]

theorem plain_clip {name : Text} (N : Nat) (plain : '%' ∉ name) :
    '%' ∉ FixedString.clip N name :=
  fun member => plain ((FixedString.clip_sublist N name).subset member)

theorem slash_notMem_mangled (N : Nat) (topic : Text) : '/' ∉ (mangleTopicName N topic).text := by
  rw [mangleTopicName_text, List.mem_map]
  rintro ⟨c, -, same⟩
  exact mangleChar_ne_slash c same

theorem demangle_mangle {name : Text} (N M : Nat) (plain : '%' ∉ name) (room : utf8Len name ≤ M) :
    (demangleTopicName M (mangleTopicName N name).text).text = FixedString.clip N name := by
  rw [demangleTopicName_text, mangleTopicName_text, map_demangle_mangle (plain_clip N plain)]
  exact (FixedString.clip_eq_iff M _).mpr
    ((String.utf8Len_le_of_sublist (FixedString.clip_sublist N name)).trans room)

/-! Numbers, ids and kinds. -/

theorem unsigned_of_digits {s : Text} (digits : ∀ c ∈ s, c.isDigit = true) : unsigned s = s := by
  rw [unsigned.eq_def]
  split
  next => exact absurd (digits '+' List.mem_cons_self) (by decide)
  next => rfl

theorem parseU32_decimal (n : UInt32) : parseU32 (decimal n.toNat) = some n := by
  have digits : ∀ c ∈ decimal n.toNat, c.isDigit = true := fun _ => isDigit_of_mem_decimal
  have stated : decimal n.toNat ≠ [] := Nat.toDigits_ne_nil
  have value : Nat.ofDigitChars 10 (decimal n.toNat) 0 = n.toNat := Nat.ofDigitChars_ten_toDigits
  have small : Nat.ofDigitChars 10 (decimal n.toNat) 0 < 2 ^ 32 := by
    rw [value]
    exact n.toNat_lt
  calc
    parseU32 (decimal n.toNat)
      = some (UInt32.ofNat (Nat.ofDigitChars 10 (decimal n.toNat) 0)) := by
        rw [parseU32, unsigned_of_digits digits]
        exact if_pos ⟨stated, List.all_eq_true.mpr digits, small⟩
    _ = some n := by rw [value, UInt32.ofNat_toNat]

theorem hexChar_mem (nibble : UInt8) : hexChar nibble ∈ hexChars := by
  rw [hexChar]
  by_cases inside : nibble.toNat < hexChars.length
  · rw [List.getD_eq_getElem _ _ inside]
    exact List.getElem_mem inside
  · rw [List.getD_eq_default _ _ (by omega)]
    decide

theorem slash_notMem_toHex (zid : ZenohId) : '/' ∉ zid.toHex := by
  have none : '/' ∉ hexChars := by decide
  intro member
  obtain ⟨i, -, digit⟩ := List.mem_flatMap.mp member
  simp only [List.mem_cons, List.not_mem_nil, or_false] at digit
  obtain high | low := digit
  · exact none (high ▸ hexChar_mem _)
  · exact none (low ▸ hexChar_mem _)

theorem fromToken_token (kind : EntityKind) : EntityKind.fromToken kind.token = some kind := by
  cases kind <;> decide

theorem slash_notMem_token (kind : EntityKind) : '/' ∉ kind.token := by
  cases kind <;> decide

theorem slash_notMem_hashSegment {typeHash : Text} (plain : '/' ∉ typeHash) :
    '/' ∉ hashSegment typeHash := by
  rw [hashSegment]
  split
  · decide
  · exact plain

theorem parse_of_chunks {key zid ns nodeName : Text} {domainId nodeId entityId : UInt32}
    {kind : EntityKind} {rest : List Text} {tail : Option (Text × Text × Text × Text)}
    (chunks : key.splitOn '/' = livelinessPrefix :: decimal domainId.toNat :: zid ::
      decimal nodeId.toNat :: decimal entityId.toNat :: kind.token :: ['%'] :: ns :: nodeName ::
      rest) (named : nodeName ≠ []) (read : parseTail kind rest = some tail) :
    parse key = some {
      keyexpr := key
      domainId
      zid
      nodeId
      entityId
      kind
      ns
      nodeName
      topic := tail.map fun t => t.1
      typeName := tail.map fun t => t.2.1
      typeHash := tail.map fun t => t.2.2.1
      qos := tail.map fun t => t.2.2.2 } := by
  rw [parse, chunks]
  simp [parseU32_decimal, fromToken_token, named, read]

theorem length_of_parseTail {kind : EntityKind} {rest : List Text}
    {tail : Option (Text × Text × Text × Text)} (read : parseTail kind rest = some tail)
    (entity : kind ≠ .node) : rest.length = 4 := by
  rw [parseTail.eq_def] at read
  split at read
  · exact absurd rfl entity
  · cases read
  · rfl
  · cases read

theorem length_of_parse {key : Text} {e : LivelinessEntity} (parsed : parse key = some e)
    (entity : e.kind ≠ .node) : (key.splitOn '/').length = 13 := by
  rw [parse] at parsed
  split at parsed
  next first domain zid node entityChunk kindChunk enclave ns nodeName rest chunks =>
    simp only [Option.bind_eq_bind, Option.bind_eq_some_iff, Option.some.injEq] at parsed
    obtain ⟨_, -, _, -, _, -, _, -, kind, -, _, -, _, -, tail, read, built⟩ := parsed
    subst built
    rw [chunks]
    have four : rest.length = 4 := length_of_parseTail read entity
    simp [four]
  next => cases parsed

end NanoRos.Zenoh
