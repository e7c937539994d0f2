import NanoRos.Node.ParameterMessages

/-! The derived size of the parameter-service buffers (`nros-node/src/param_sizing.rs`). -/

namespace NanoRos

/-- What one node's declared parameters put through the services, before any capacity is known. -/
structure ParamServiceShape where
  params : Nat
  nameBytes : Nat
  prefixes : Nat
  prefixBytes : Nat
  strings : Nat
  byteArrays : Nat
  boolArrays : Nat
  wordArrays : Nat
  stringArrays : Nat

structure ParamWireCaps where
  string : Nat
  array : Nat
  byteArray : Nat
  description : Nat
  constraints : Nat

def cdrHeader : Nat := 4

def cdrSeq : Nat := 3 + 4

def cdrStr : Nat := 3 + 4 + 1

def ParamSizing.cdrWord : Nat := 7 + 8

def cdrValueBase : Nat := 53

def cdrDescriptorBase : Nat := 64

def setReasons : List String :=
  [setResultReason (.ok ()), setResultReason (.error .readOnly),
    setResultReason (.error .typeMismatch), setResultReason (.error .outOfRange),
    setResultReason (.error .notFound), setResultReason (.error .storageFull),
    setResultReason (.error .undeclared), setResultReason (.error .invalidRange),
    setResultReason (.error .rejected), setResultReason (.error .stringConversion),
    ConversionError.capacityExceeded.reason, (ConversionError.unknownType 0).reason]

def longestSetReason : Nat := (setReasons.map byteLen).foldl max 0

structure ParamServiceBound where
  namesRequest : Nat
  getReply : Nat
  describeReply : Nat
  typesReply : Nat
  listRequest : Nat
  listReply : Nat
  setRequest : Nat
  setReply : Nat

namespace ParamServiceBound

def zero : ParamServiceBound := ⟨0, 0, 0, 0, 0, 0, 0, 0⟩

def fields (b : ParamServiceBound) : List Nat :=
  [b.namesRequest, b.getReply, b.describeReply, b.typesReply, b.listRequest, b.listReply,
    b.setRequest, b.setReply]

def total (b : ParamServiceBound) : Nat := b.fields.foldl max 0

def maxWith (b o : ParamServiceBound) : ParamServiceBound where
  namesRequest := max b.namesRequest o.namesRequest
  getReply := max b.getReply o.getReply
  describeReply := max b.describeReply o.describeReply
  typesReply := max b.typesReply o.typesReply
  listRequest := max b.listRequest o.listRequest
  listReply := max b.listReply o.listReply
  setRequest := max b.setRequest o.setRequest
  setReply := max b.setReply o.setReply

end ParamServiceBound

def nodeBound (s : ParamServiceShape) (c : ParamWireCaps) : ParamServiceBound :=
  let n := s.params
  let names := s.nameBytes + n * cdrStr
  let prefixes := s.prefixBytes + s.prefixes * cdrStr
  let values := n * cdrValueBase + s.strings * c.string + s.byteArrays * c.byteArray +
    s.boolArrays * c.array + s.wordArrays * (7 + 8 * c.array) +
    s.stringArrays * c.array * (cdrStr + c.string)
  let head := cdrHeader + cdrSeq
  let setReply := head + n * (1 + cdrStr + longestSetReason)
  let atomicReply := cdrHeader + 1 + cdrStr + byteLen atomicFailureReason
  { namesRequest := head + names
    getReply := head + values
    describeReply := head + s.nameBytes + n * (cdrDescriptorBase + c.description + c.constraints)
    typesReply := head + n
    listRequest := head + prefixes + ParamSizing.cdrWord
    listReply := head + names + cdrSeq + prefixes
    setRequest := head + names + values
    setReply := max setReply atomicReply }

def paramServiceBound (shapes : List ParamServiceShape) (caps : ParamWireCaps) :
    ParamServiceBound :=
  shapes.foldl (fun out s => out.maxWith (nodeBound s caps)) .zero

/-! The parameters the bound is about. -/

/-- The node's entries, in the order of the slots. -/
def ParameterServer.declared (s : ParameterServer) (node : NodeKey) : List ParameterEntry :=
  (s.entries.filterMap id).filter fun entry => decide (entry.node = node)

def ParameterEntry.name (entry : ParameterEntry) : String := entry.param.name

def ParameterEntry.paramType (entry : ParameterEntry) : ParameterType := entry.param.paramType

/-- The distinct prefixes of the names, as the list reply has them. -/
def declaredPrefixes (entries : List ParameterEntry) : List String :=
  (entries.filterMap fun entry => namePrefix entry.name).dedup

/-- The declared names, their prefixes and the types are those the shape counts. -/
structure ParamServiceShape.Matches (shape : ParamServiceShape) (entries : List ParameterEntry) :
    Prop where
  params : entries.length = shape.params
  nameBytes : (entries.map fun entry => byteLen entry.name).sum = shape.nameBytes
  prefixes : (declaredPrefixes entries).length = shape.prefixes
  prefixBytes : ((declaredPrefixes entries).map byteLen).sum = shape.prefixBytes
  strings : (entries.map ParameterEntry.paramType).count .string = shape.strings
  byteArrays : (entries.map ParameterEntry.paramType).count .byteArray = shape.byteArrays
  boolArrays : (entries.map ParameterEntry.paramType).count .boolArray = shape.boolArrays
  wordArrays : (entries.map ParameterEntry.paramType).count .integerArray +
    (entries.map ParameterEntry.paramType).count .doubleArray = shape.wordArrays
  stringArrays : (entries.map ParameterEntry.paramType).count .stringArray = shape.stringArrays

/-- The value is within the capacities. -/
def ParameterValue.Within (caps : ParamWireCaps) : ParameterValue → Prop
  | .string s => byteLen s ≤ caps.string
  | .byteArray v => v.length ≤ caps.byteArray
  | .boolArray v => v.length ≤ caps.array
  | .integerArray v => v.length ≤ caps.array
  | .doubleArray v => v.length ≤ caps.array
  | .stringArray v => v.length ≤ caps.array ∧ ∀ s ∈ v, byteLen s ≤ caps.string
  | _ => True

/-- A descriptor bears its parameter's name, and its texts are within the capacities. -/
structure ParameterEntry.Described (caps : ParamWireCaps) (entry : ParameterEntry)
    (desc : ParameterDescriptor) : Prop where
  name : desc.name = entry.name
  description : byteLen desc.description ≤ caps.description
  constraints : byteLen desc.additionalConstraints ≤ caps.constraints

end NanoRos
