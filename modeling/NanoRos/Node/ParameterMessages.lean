import NanoRos.Node.ParameterServices

/-! The generated `rcl_interfaces` messages, with their codecs as plain sequential CDR in
declaration order, the conversions between them and the store's types, and the six by-value
handlers, which the streaming ones are to answer like. -/

namespace NanoRos

/-! `heapless::String<256>` and `heapless::Vec<_, 64>`. -/

structure WireString where
  text : String
  fits : byteLen text ≤ wireStringCap

namespace WireString

def empty : WireString := ⟨"", Nat.zero_le _⟩

/-- `try_from`, and `push_str` on an empty string: all or nothing. -/
def ofStr (s : String) : Option WireString :=
  if fits : byteLen s ≤ wireStringCap then some ⟨s, fits⟩ else none

/-- `let _ = s.push_str(..)` on an empty string. -/
def orEmpty (s : String) : WireString := (ofStr s).getD empty

end WireString

abbrev WireVec (α : Type) := BoundedVec α wireSeqCap

/-- `let _ = v.push(..)`. -/
def BoundedVec.pushOrDrop {α : Type} {N : Nat} (v : BoundedVec α N) (a : α) : BoundedVec α N :=
  (v.push a).getD v

/-! Codecs. -/

def serializeVec {α : Type} {N : Nat} (serialize : CdrWriter → α → Except SerError CdrWriter)
    (w : CdrWriter) (v : BoundedVec α N) : Except SerError CdrWriter := do
  let w ← w.writeU32 (UInt32.ofNat v.len)
  v.items.foldlM serialize w

def serializeString (w : CdrWriter) (s : WireString) : Except SerError CdrWriter :=
  w.writeString s.text

def deserializeElements {α : Type} {N : Nat}
    (deserialize : CdrReader → Except DeserError (α × CdrReader)) :
    Nat → BoundedVec α N → CdrReader → Except DeserError (BoundedVec α N × CdrReader)
  | 0, v, r => .ok (v, r)
  | n + 1, v, r => do
    let (a, r) ← deserialize r
    match v.push a with
    | some v => deserializeElements deserialize n v r
    | none => throw .capacityExceeded

def deserializeVec {α : Type} {N : Nat}
    (deserialize : CdrReader → Except DeserError (α × CdrReader)) (r : CdrReader) :
    Except DeserError (BoundedVec α N × CdrReader) := do
  let (len, r) ← r.readU32
  deserializeElements deserialize len.toNat .empty r

def deserializeString (r : CdrReader) : Except DeserError (WireString × CdrReader) := do
  let (s, r) ← r.readString
  match WireString.ofStr s with
  | some s => return (s, r)
  | none => throw .capacityExceeded

/-! Messages (`rcl_interfaces/msg`). -/

structure RclParameterValue where
  typeCode : UInt8
  boolValue : Bool
  integerValue : Int64
  doubleValue : F64
  stringValue : WireString
  byteArrayValue : WireVec UInt8
  boolArrayValue : WireVec Bool
  integerArrayValue : WireVec Int64
  doubleArrayValue : WireVec F64
  stringArrayValue : WireVec WireString

namespace RclParameterValue

def default : RclParameterValue :=
  ⟨0, false, 0, ⟨0⟩, .empty, .empty, .empty, .empty, .empty, .empty⟩

def serialize (w : CdrWriter) (m : RclParameterValue) : Except SerError CdrWriter := do
  let w ← w.writeU8 m.typeCode
  let w ← w.writeBool m.boolValue
  let w ← w.writeI64 m.integerValue
  let w ← w.writeF64 m.doubleValue
  let w ← serializeString w m.stringValue
  let w ← serializeVec CdrWriter.writeU8 w m.byteArrayValue
  let w ← serializeVec CdrWriter.writeBool w m.boolArrayValue
  let w ← serializeVec CdrWriter.writeI64 w m.integerArrayValue
  let w ← serializeVec CdrWriter.writeF64 w m.doubleArrayValue
  serializeVec serializeString w m.stringArrayValue

def deserialize (r : CdrReader) : Except DeserError (RclParameterValue × CdrReader) := do
  let (typeCode, r) ← r.readU8
  let (boolValue, r) ← r.readBool
  let (integerValue, r) ← r.readI64
  let (doubleValue, r) ← r.readF64
  let (stringValue, r) ← deserializeString r
  let (byteArrayValue, r) ← deserializeVec CdrReader.readU8 r
  let (boolArrayValue, r) ← deserializeVec CdrReader.readBool r
  let (integerArrayValue, r) ← deserializeVec CdrReader.readI64 r
  let (doubleArrayValue, r) ← deserializeVec CdrReader.readF64 r
  let (stringArrayValue, r) ← deserializeVec deserializeString r
  return ({ typeCode, boolValue, integerValue, doubleValue, stringValue, byteArrayValue,
            boolArrayValue, integerArrayValue, doubleArrayValue, stringArrayValue }, r)

end RclParameterValue

structure RclParameter where
  name : WireString
  value : RclParameterValue

def RclParameter.deserialize (r : CdrReader) : Except DeserError (RclParameter × CdrReader) := do
  let (name, r) ← deserializeString r
  let (value, r) ← RclParameterValue.deserialize r
  return (⟨name, value⟩, r)

structure RclFloatingPointRange where
  fromValue : F64
  toValue : F64
  step : F64

def RclFloatingPointRange.serialize (w : CdrWriter) (m : RclFloatingPointRange) :
    Except SerError CdrWriter := do
  let w ← w.writeF64 m.fromValue
  let w ← w.writeF64 m.toValue
  w.writeF64 m.step

structure RclIntegerRange where
  fromValue : Int64
  toValue : Int64
  step : UInt64

def RclIntegerRange.serialize (w : CdrWriter) (m : RclIntegerRange) :
    Except SerError CdrWriter := do
  let w ← w.writeI64 m.fromValue
  let w ← w.writeI64 m.toValue
  w.writeU64 m.step

structure RclParameterDescriptor where
  name : WireString
  typeCode : UInt8
  description : WireString
  additionalConstraints : WireString
  readOnly : Bool
  dynamicTyping : Bool
  floatingPointRange : BoundedVec RclFloatingPointRange 1
  integerRange : BoundedVec RclIntegerRange 1

namespace RclParameterDescriptor

def default : RclParameterDescriptor :=
  ⟨.empty, 0, .empty, .empty, false, false, .empty, .empty⟩

def serialize (w : CdrWriter) (m : RclParameterDescriptor) : Except SerError CdrWriter := do
  let w ← serializeString w m.name
  let w ← w.writeU8 m.typeCode
  let w ← serializeString w m.description
  let w ← serializeString w m.additionalConstraints
  let w ← w.writeBool m.readOnly
  let w ← w.writeBool m.dynamicTyping
  let w ← serializeVec RclFloatingPointRange.serialize w m.floatingPointRange
  serializeVec RclIntegerRange.serialize w m.integerRange

end RclParameterDescriptor

structure SetParametersResult where
  successful : Bool
  reason : WireString

def SetParametersResult.serialize (w : CdrWriter) (m : SetParametersResult) :
    Except SerError CdrWriter := do
  let w ← w.writeBool m.successful
  serializeString w m.reason

/-- The request of `GetParameters`, `DescribeParameters` and `GetParameterTypes`. -/
structure NamesRequest where
  names : WireVec WireString

def NamesRequest.deserialize (r : CdrReader) : Except DeserError (NamesRequest × CdrReader) := do
  let (names, r) ← deserializeVec deserializeString r
  return (⟨names⟩, r)

/-- The request of `SetParameters` and `SetParametersAtomically`. -/
structure SetParametersRequest where
  parameters : WireVec RclParameter

def SetParametersRequest.deserialize (r : CdrReader) :
    Except DeserError (SetParametersRequest × CdrReader) := do
  let (parameters, r) ← deserializeVec RclParameter.deserialize r
  return (⟨parameters⟩, r)

structure ListParametersRequest where
  prefixes : WireVec WireString
  depth : UInt64

def ListParametersRequest.deserialize (r : CdrReader) :
    Except DeserError (ListParametersRequest × CdrReader) := do
  let (prefixes, r) ← deserializeVec deserializeString r
  let (depth, r) ← r.readU64
  return (⟨prefixes, depth⟩, r)

structure ListParametersResult where
  names : WireVec WireString
  prefixes : WireVec WireString

def ListParametersResult.serialize (w : CdrWriter) (m : ListParametersResult) :
    Except SerError CdrWriter := do
  let w ← serializeVec serializeString w m.names
  serializeVec serializeString w m.prefixes

/-! Conversions. -/

/-- `push` a converted item, or fail with `CapacityExceeded`. -/
def pushConverted {α β : Type} {N : Nat} (convert : α → Option β) (v : BoundedVec β N) (a : α) :
    Except ConversionError (BoundedVec β N) :=
  match (convert a).bind v.push with
  | some v => .ok v
  | none => .error .capacityExceeded

def pushAll {α β : Type} {N : Nat} (convert : α → Option β) (items : List α) :
    Except ConversionError (BoundedVec β N) := items.foldlM (pushConverted convert) .empty

def toRclValue (value : ParameterValue) : Except ConversionError RclParameterValue :=
  let result := RclParameterValue.default
  match value with
  | .notSet => .ok { result with typeCode := 0 }
  | .bool v => .ok { result with typeCode := 1, boolValue := v }
  | .integer v => .ok { result with typeCode := 2, integerValue := v }
  | .double v => .ok { result with typeCode := 3, doubleValue := v }
  | .string v =>
    match WireString.ofStr v with
    | some stringValue => .ok { result with typeCode := 4, stringValue }
    | none => .error .capacityExceeded
  | .byteArray v => do
    let byteArrayValue ← pushAll some v
    return { result with typeCode := 5, byteArrayValue }
  | .boolArray v => do
    let boolArrayValue ← pushAll some v
    return { result with typeCode := 6, boolArrayValue }
  | .integerArray v => do
    let integerArrayValue ← pushAll some v
    return { result with typeCode := 7, integerArrayValue }
  | .doubleArray v => do
    let doubleArrayValue ← pushAll some v
    return { result with typeCode := 8, doubleArrayValue }
  | .stringArray v => do
    let stringArrayValue ← pushAll WireString.ofStr v
    return { result with typeCode := 9, stringArrayValue }

/-- `push_str` into an empty `heapless::String<MAX_STRING_VALUE_LEN>`. -/
def storeString (caps : ParamCaps) (s : WireString) : Option String :=
  if byteLen s.text ≤ caps.maxStringValueLen then some s.text else none

def fromRclValue (caps : ParamCaps) (value : RclParameterValue) :
    Except ConversionError ParameterValue :=
  if value.typeCode = 0 then .ok .notSet
  else if value.typeCode = 1 then .ok (.bool value.boolValue)
  else if value.typeCode = 2 then .ok (.integer value.integerValue)
  else if value.typeCode = 3 then .ok (.double value.doubleValue)
  else if value.typeCode = 4 then
    match storeString caps value.stringValue with
    | some s => .ok (.string s)
    | none => .error .capacityExceeded
  else if value.typeCode = 5 then do
    let v : BoundedVec UInt8 caps.maxByteArrayLen ← pushAll some value.byteArrayValue.items
    return .byteArray v.items
  else if value.typeCode = 6 then do
    let v : BoundedVec Bool caps.maxArrayLen ← pushAll some value.boolArrayValue.items
    return .boolArray v.items
  else if value.typeCode = 7 then do
    let v : BoundedVec Int64 caps.maxArrayLen ← pushAll some value.integerArrayValue.items
    return .integerArray v.items
  else if value.typeCode = 8 then do
    let v : BoundedVec F64 caps.maxArrayLen ← pushAll some value.doubleArrayValue.items
    return .doubleArray v.items
  else if value.typeCode = 9 then do
    let v : BoundedVec String caps.maxArrayLen ←
      pushAll (storeString caps) value.stringArrayValue.items
    return .stringArray v.items
  else .error (.unknownType value.typeCode)

def toRclDescriptor (desc : ParameterDescriptor) : RclParameterDescriptor :=
  let result : RclParameterDescriptor := { RclParameterDescriptor.default with
    name := .orEmpty desc.name
    typeCode := typeToU8 desc.paramType
    description := .orEmpty desc.description
    additionalConstraints := .orEmpty desc.additionalConstraints
    readOnly := desc.readOnly
    dynamicTyping := desc.dynamicTyping }
  match desc.range with
  | .none => result
  | .integer range => { result with
      integerRange := result.integerRange.pushOrDrop ⟨range.min, range.max, range.step.toUInt64⟩ }
  | .floatingPoint range => { result with
      floatingPointRange :=
        result.floatingPointRange.pushOrDrop ⟨range.min, range.max, range.step⟩ }

def conversionFailureResult (err : ConversionError) : SetParametersResult :=
  ⟨false, .orEmpty err.reason⟩

def toRclSetResult (result : Except ParameterError Unit) : SetParametersResult :=
  ⟨result.isOk, .orEmpty (setResultReason result)⟩

/-! The by-value handlers. -/

section

variable (s : ParameterServer) (node : NodeKey)

def handleGetParameters (request : NamesRequest) : WireVec RclParameterValue :=
  request.names.items.foldl (fun values name => values.pushOrDrop
    (((s.get node name.text).bind fun v => (toRclValue v).toOption).getD .default)) .empty

def handleDescribeParameters (request : NamesRequest) : WireVec RclParameterDescriptor :=
  request.names.items.foldl (fun descriptors name => descriptors.pushOrDrop
    (match s.getDescriptor node name.text with
    | some desc => toRclDescriptor desc
    | none =>
      match s.getParameter node name.text with
      | some param => { RclParameterDescriptor.default with
          name := .orEmpty name.text, typeCode := typeToU8 param.paramType }
      | none => { RclParameterDescriptor.default with
          name := .orEmpty name.text, typeCode := 0 })) .empty

def handleGetParameterTypes (request : NamesRequest) : WireVec UInt8 :=
  request.names.items.foldl (fun types name => types.pushOrDrop
    (((s.getType node name.text).map typeToU8).getD 0)) .empty

/-- `prefixes` is compared with the whole prefix, and gets it if it fits the message. -/
def noteListed (result : ListParametersResult) (name : String) : ListParametersResult :=
  let result := { result with names := result.names.pushOrDrop (.orEmpty name) }
  match namePrefix name with
  | none => result
  | some start =>
    if result.prefixes.items.any fun existing => existing.text == start then result
    else { result with prefixes := result.prefixes.pushOrDrop (.orEmpty start) }

def handleListParameters (request : ListParametersRequest) : ListParametersResult :=
  let filters := request.prefixes.items.map WireString.text
  (((s.iter node).map Parameter.name).filter (listSelected filters request.depth)).foldl
    noteListed ⟨.empty, .empty⟩

end

section

variable (caps : ParamCaps) (node : NodeKey)

/-- One parameter: the result, and the store after it. -/
def handleSetOne (s : ParameterServer) (param : RclParameter) :
    SetParametersResult × ParameterServer :=
  match fromRclValue caps param.value with
  | .error e => (conversionFailureResult e, s)
  | .ok value =>
    let (result, s) := s.apply caps node param.name.text value
    (toRclSetResult result, s)

def handleSetNext (served : WireVec SetParametersResult × ParameterServer)
    (param : RclParameter) : WireVec SetParametersResult × ParameterServer :=
  let (result, s) := handleSetOne caps node served.2 param
  (served.1.pushOrDrop result, s)

def handleSetParameters (s : ParameterServer) (request : SetParametersRequest) :
    WireVec SetParametersResult × ParameterServer :=
  request.parameters.items.foldl (handleSetNext caps node) (.empty, s)

def handleSetParametersAtomically (s : ParameterServer) (request : SetParametersRequest) :
    SetParametersResult × ParameterServer :=
  let (verdict, s) := s.applyAtomically caps node (request.parameters.items.map fun param =>
    (fromRclValue caps param.value).toOption.map fun v => (param.name.text, v))
  (if verdict.isOk then ⟨true, .empty⟩ else ⟨false, .orEmpty atomicFailureReason⟩, s)

end

end NanoRos
