import NanoRos.Lib.Loops
import NanoRos.Params.Apply
import NanoRos.Serdes.Cdr

/-! The streaming handlers of the six parameter services (`nros-node/src/parameter_services.rs`). -/

namespace NanoRos

/-- The two `TransportError`s a handler returns. -/
inductive HandlerError where
  | serializationError
  | deserializationError
  deriving DecidableEq, Repr

def serFailed {α : Type} : Except SerError α → Except HandlerError α :=
  Except.mapError fun _ => .serializationError

def deserFailed {α : Type} : Except DeserError α → Except HandlerError α :=
  Except.mapError fun _ => .deserializationError

def wireSeqCap : Nat := 64

def wireStringCap : Nat := 256

/-! Reasons (`param_sizing.rs`). -/

def setResultReason : Except ParameterError Unit → String
  | .ok () => ""
  | .error .readOnly => "Parameter is read-only"
  | .error .typeMismatch => "Type mismatch"
  | .error .outOfRange => "Value out of range"
  | .error .notFound => "Parameter not found"
  | .error .storageFull => "Parameter storage full"
  | .error .undeclared =>
    "Parameter was not declared and undeclared parameters are not allowed"
  | .error .invalidRange => "Invalid range"
  | .error .rejected => "Rejected by an on-set-parameters callback"
  | .error .stringConversion => "String conversion failed"

def atomicFailureReason : String := "One or more parameters could not be set"

/-- `RmwParameterConversionError`. -/
inductive ConversionError where
  | capacityExceeded
  | unknownType (code : UInt8)
  deriving DecidableEq, Repr

def ConversionError.reason : ConversionError → String
  | .capacityExceeded => "Value exceeds this node's parameter capacity"
  | .unknownType _ => "Unknown parameter type"

def typeToU8 : ParameterType → UInt8
  | .notSet => 0
  | .bool => 1
  | .integer => 2
  | .double => 3
  | .string => 4
  | .byteArray => 5
  | .boolArray => 6
  | .integerArray => 7
  | .doubleArray => 8
  | .stringArray => 9

/-! Fields. -/

def readWireSeqLen (r : CdrReader) : Except DeserError (Nat × CdrReader) := do
  let (len, r) ← r.readSequenceLen
  if len > wireSeqCap then throw .capacityExceeded
  return (len, r)

def readWireString (r : CdrReader) : Except DeserError (String × CdrReader) := do
  let (s, r) ← r.readString
  if byteLen s > wireStringCap then throw .capacityExceeded
  return (s, r)

def fitOrEmpty (s : String) : String := if byteLen s ≤ wireStringCap then s else ""

def rewind (body : List UInt8) : EncodingVersion → Except DeserError CdrReader
  | .xcdr1 => .ok (CdrReader.new body)
  | .xcdr2 => CdrReader.newAtXcdr2 body 0

/-- Whether a stored value fits the message that would carry it. -/
def valueFitsWire : ParameterValue → Bool
  | .string s => decide (byteLen s ≤ wireStringCap)
  | .byteArray v => decide (v.length ≤ wireSeqCap)
  | .boolArray v => decide (v.length ≤ wireSeqCap)
  | .integerArray v => decide (v.length ≤ wireSeqCap)
  | .doubleArray v => decide (v.length ≤ wireSeqCap)
  | .stringArray v =>
    decide (v.length ≤ wireSeqCap) && v.all fun s => decide (byteLen s ≤ wireStringCap)
  | _ => true

/-- A sequence member: its length, then its elements. -/
def writeSequence {α : Type} (write : CdrWriter → α → Except SerError CdrWriter) (w : CdrWriter)
    (items : List α) : Except SerError CdrWriter := do
  let w ← w.writeSequenceLen items.length
  items.foldlM write w

/-- All ten members in declaration order; only the selected one carries data. -/
def writeParameterValue (w : CdrWriter) (value : ParameterValue) : Except SerError CdrWriter := do
  let w ← w.writeU8 (typeToU8 value.paramType)
  let w ← w.writeBool (match value with | .bool v => v | _ => false)
  let w ← w.writeI64 (match value with | .integer v => v | _ => 0)
  let w ← w.writeF64 (match value with | .double v => v | _ => ⟨0⟩)
  let w ← w.writeString (match value with | .string v => v | _ => "")
  let w ← match value with
    | .byteArray v => writeSequence CdrWriter.writeU8 w v
    | _ => w.writeSequenceLen 0
  let w ← match value with
    | .boolArray v => writeSequence CdrWriter.writeBool w v
    | _ => w.writeSequenceLen 0
  let w ← match value with
    | .integerArray v => writeSequence CdrWriter.writeI64 w v
    | _ => w.writeSequenceLen 0
  let w ← match value with
    | .doubleArray v => writeSequence CdrWriter.writeF64 w v
    | _ => w.writeSequenceLen 0
  match value with
    | .stringArray v => writeSequence CdrWriter.writeString w v
    | _ => w.writeSequenceLen 0

/-- The staging slot and the failure noted so far. -/
structure Staging where
  staged : ParameterValue
  err : Option ConversionError

namespace Staging

/-- `err = err.or(Some(CapacityExceeded))`. -/
def exceed (st : Staging) : Staging := { st with err := st.err.or (some .capacityExceeded) }

def exceedIf (st : Staging) (beyond : Bool) : Staging := if beyond then st.exceed else st

def pushByte (caps : ParamCaps) (st : Staging) (b : UInt8) : Staging :=
  match st.staged with
  | .byteArray v =>
    if v.length < caps.maxByteArrayLen then { st with staged := .byteArray (v ++ [b]) }
    else st.exceed
  | _ => st

def pushBool (caps : ParamCaps) (st : Staging) (b : Bool) : Staging :=
  match st.staged with
  | .boolArray v =>
    if v.length < caps.maxArrayLen then { st with staged := .boolArray (v ++ [b]) }
    else st.exceed
  | _ => st

def pushInteger (caps : ParamCaps) (st : Staging) (i : Int64) : Staging :=
  match st.staged with
  | .integerArray v =>
    if v.length < caps.maxArrayLen then { st with staged := .integerArray (v ++ [i]) }
    else st.exceed
  | _ => st

def pushDouble (caps : ParamCaps) (st : Staging) (d : F64) : Staging :=
  match st.staged with
  | .doubleArray v =>
    if v.length < caps.maxArrayLen then { st with staged := .doubleArray (v ++ [d]) }
    else st.exceed
  | _ => st

/-- An empty string is pushed and then filled; one that does not fit stays empty. -/
def pushString (caps : ParamCaps) (st : Staging) (s : String) : Staging :=
  let st := st.exceedIf (decide (wireStringCap < byteLen s))
  match st.staged with
  | .stringArray v =>
    if v.length < caps.maxArrayLen then
      if byteLen s ≤ caps.maxStringValueLen then { st with staged := .stringArray (v ++ [s]) }
      else { st.exceed with staged := .stringArray (v ++ [""]) }
    else st.exceed
  | _ => st

end Staging

/-- The slot as the type code leaves it, before the sequences are read. -/
def stageScalar (caps : ParamCaps) (code : UInt8) (boolValue : Bool) (integerValue : Int64)
    (doubleValue : F64) (stringValue : String) : Staging :=
  let err := if wireStringCap < byteLen stringValue then some .capacityExceeded else none
  if code = 0 then ⟨.notSet, err⟩
  else if code = 1 then ⟨.bool boolValue, err⟩
  else if code = 2 then ⟨.integer integerValue, err⟩
  else if code = 3 then ⟨.double doubleValue, err⟩
  else if code = 4 then
    if byteLen stringValue ≤ caps.maxStringValueLen then ⟨.string stringValue, err⟩
    else ⟨.string "", some .capacityExceeded⟩
  else if code = 5 then ⟨.byteArray [], err⟩
  else if code = 6 then ⟨.boolArray [], err⟩
  else if code = 7 then ⟨.integerArray [], err⟩
  else if code = 8 then ⟨.doubleArray [], err⟩
  else if code = 9 then ⟨.stringArray [], err⟩
  else ⟨.notSet, some (.unknownType code)⟩

/-- `for _ in 0..n`, each element read and pushed. -/
def pushElements {α : Type} (read : CdrReader → Except DeserError (α × CdrReader))
    (push : Staging → α → Staging) : Nat → Staging → CdrReader →
    Except DeserError (Staging × CdrReader)
  | 0, st, r => .ok (st, r)
  | n + 1, st, r => do
    let (a, r) ← read r
    pushElements read push n (push st a) r

/-- A sequence member past the wire cap is refused but still read. -/
def pushSequence {α : Type} (read : CdrReader → Except DeserError (α × CdrReader))
    (push : Staging → α → Staging) (st : Staging) (r : CdrReader) :
    Except DeserError (Staging × CdrReader) := do
  let (len, r) ← r.readSequenceLen
  pushElements read push len (st.exceedIf (decide (wireSeqCap < len))) r

/-- All ten members are consumed, whatever the type code says. -/
def readParameterValueInto (caps : ParamCaps) (r : CdrReader) :
    Except DeserError (Except ConversionError ParameterValue × CdrReader) := do
  let (code, r) ← r.readU8
  let (boolValue, r) ← r.readBool
  let (integerValue, r) ← r.readI64
  let (doubleValue, r) ← r.readF64
  let (stringValue, r) ← r.readString
  let st := stageScalar caps code boolValue integerValue doubleValue stringValue
  let (st, r) ← pushSequence CdrReader.readU8 (Staging.pushByte caps) st r
  let (st, r) ← pushSequence CdrReader.readBool (Staging.pushBool caps) st r
  let (st, r) ← pushSequence CdrReader.readI64 (Staging.pushInteger caps) st r
  let (st, r) ← pushSequence CdrReader.readF64 (Staging.pushDouble caps) st r
  let (st, r) ← pushSequence CdrReader.readString (Staging.pushString caps) st r
  return (match st.err with | some e => .error e | none => .ok st.staged, r)

def writeSetResult (w : CdrWriter) (successful : Bool) (reason : String) :
    Except SerError CdrWriter := do
  let w ← w.writeBool successful
  w.writeString (fitOrEmpty reason)

/-! The handlers that read the store. -/

/-- One answer for each name of the request. -/
def streamNames (answer : String → CdrWriter → Except SerError CdrWriter) : Nat → CdrReader →
    CdrWriter → Except HandlerError CdrWriter
  | 0, _, w => .ok w
  | n + 1, r, w => do
    let (name, r) ← deserFailed (readWireString r)
    let w ← serFailed (answer name w)
    streamNames answer n r w

/-- The shape the get, describe and types handlers share. -/
def streamByName (answer : String → CdrWriter → Except SerError CdrWriter) (r : CdrReader)
    (w : CdrWriter) : Except HandlerError CdrWriter := do
  let (count, r) ← deserFailed (readWireSeqLen r)
  let w ← serFailed (w.writeSequenceLen count)
  streamNames answer count r w

def streamGetParameters (s : ParameterServer) (node : NodeKey) (r : CdrReader) (w : CdrWriter) :
    Except HandlerError CdrWriter :=
  streamByName (fun name w =>
    match (s.get node name).filter valueFitsWire with
    | some value => writeParameterValue w value
    | none => writeParameterValue w .notSet) r w

def writeDescriptor (w : CdrWriter) (desc : ParameterDescriptor) : Except SerError CdrWriter := do
  let w ← w.writeString (fitOrEmpty desc.name)
  let w ← w.writeU8 (typeToU8 desc.paramType)
  let w ← w.writeString (fitOrEmpty desc.description)
  let w ← w.writeString (fitOrEmpty desc.additionalConstraints)
  let w ← w.writeBool desc.readOnly
  let w ← w.writeBool desc.dynamicTyping
  let w ← match desc.range with
    | .floatingPoint range => do
      let w ← w.writeSequenceLen 1
      let w ← w.writeF64 range.min
      let w ← w.writeF64 range.max
      w.writeF64 range.step
    | _ => w.writeSequenceLen 0
  match desc.range with
    | .integer range => do
      let w ← w.writeSequenceLen 1
      let w ← w.writeI64 range.min
      let w ← w.writeI64 range.max
      w.writeU64 range.step.toUInt64
    | _ => w.writeSequenceLen 0

def writeMinimalDescriptor (w : CdrWriter) (name : String) (code : UInt8) :
    Except SerError CdrWriter := do
  let w ← w.writeString (fitOrEmpty name)
  let w ← w.writeU8 code
  let w ← w.writeString ""
  let w ← w.writeString ""
  let w ← w.writeBool false
  let w ← w.writeBool false
  let w ← w.writeSequenceLen 0
  w.writeSequenceLen 0

def streamDescribeParameters (s : ParameterServer) (node : NodeKey) (r : CdrReader)
    (w : CdrWriter) : Except HandlerError CdrWriter :=
  streamByName (fun name w =>
    match s.getDescriptor node name with
    | some desc => writeDescriptor w desc
    | none =>
      match s.getParameter node name with
      | some param => writeMinimalDescriptor w name (typeToU8 param.paramType)
      | none => writeMinimalDescriptor w name 0) r w

def streamGetParameterTypes (s : ParameterServer) (node : NodeKey) (r : CdrReader)
    (w : CdrWriter) : Except HandlerError CdrWriter :=
  streamByName (fun name w => w.writeU8 (((s.getType node name).map typeToU8).getD 0)) r w

/-! The list handler. -/

def startsWith (name start : String) : Bool := start.toList.isPrefixOf name.toList

def dotCount (name : String) : Nat := name.toList.count '.'

/-- Everything up to the last dot, if there is one (`rfind`). -/
def namePrefix (name : String) : Option String :=
  match name.toList.reverse.dropWhile (fun c => c != '.') with
  | _ :: before => some (String.ofList before.reverse)
  | [] => none

/-- The prefix and depth filter of a list request; depth zero is unlimited. -/
def listSelected (filters : List String) (depth : UInt64) (name : String) : Bool :=
  (filters.isEmpty || filters.any fun start => startsWith name start) &&
    (decide (depth = 0) || decide (dotCount name ≤ depth.toNat))

def readFilters : Nat → CdrReader → Except DeserError (List String × CdrReader)
  | 0, r => .ok ([], r)
  | n + 1, r => do
    let (s, r) ← readWireString r
    let (rest, r) ← readFilters n r
    return (s :: rest, r)

/-- What the first walk over the store finds: how many names the reply holds, which prefixes, and
whether either was cut at the wire cap. -/
structure ListScan where
  nameCount : Nat
  prefixes : List String
  truncated : Bool

namespace ListScan

def noteName (scan : ListScan) : ListScan :=
  if scan.nameCount < wireSeqCap then { scan with nameCount := scan.nameCount + 1 }
  else { scan with truncated := true }

def notePrefix (scan : ListScan) (start : String) : ListScan :=
  if scan.prefixes.contains start then scan
  else if scan.prefixes.length < wireSeqCap then
    { scan with prefixes := scan.prefixes ++ [start] }
  else { scan with truncated := true }

def note (scan : ListScan) (name : String) : ListScan :=
  match namePrefix name with
  | none => scan.noteName
  | some start => scan.noteName.notePrefix start

end ListScan

def streamListParameters (s : ParameterServer) (node : NodeKey) (r : CdrReader) (w : CdrWriter)
    (truncated : Bool) : Bool × Except HandlerError CdrWriter :=
  match (do
    let (count, r) ← readWireSeqLen r
    let (filters, r) ← readFilters count r
    let (depth, _) ← r.readU64
    return (filters, depth)) with
  | .error _ => (truncated, .error .deserializationError)
  | .ok (filters, depth) =>
    let selected := ((s.iter node).map Parameter.name).filter (listSelected filters depth)
    let scan := selected.foldl ListScan.note ⟨0, [], truncated⟩
    (scan.truncated, serFailed do
      let w ← w.writeSequenceLen scan.nameCount
      let w ← (selected.take scan.nameCount).foldlM
        (fun w name => w.writeString (fitOrEmpty name)) w
      let w ← w.writeSequenceLen scan.prefixes.length
      scan.prefixes.foldlM (fun w start => w.writeString (fitOrEmpty start)) w)

/-! The set handlers. -/

/-- The name and the value of the next parameter of a set request. -/
def readSetItem (caps : ParamCaps) (r : CdrReader) :
    Except DeserError ((String × Except ConversionError ParameterValue) × CdrReader) := do
  let (name, r) ← r.readString
  let (value, r) ← readParameterValueInto caps r
  return ((name, value), r)

/-- A name past the wire cap is refused like a value. -/
def wireChecked (name : String) (value : Except ConversionError ParameterValue) :
    Except ConversionError ParameterValue :=
  if wireStringCap < byteLen name then .error .capacityExceeded else value

/-- One parameter of a `SetParameters` request: the store, and the result that is written. -/
def setOne (caps : ParamCaps) (s : ParameterServer) (node : NodeKey) (name : String)
    (value : Except ConversionError ParameterValue) : (Bool × String) × ParameterServer :=
  match wireChecked name value with
  | .error e => ((false, e.reason), s)
  | .ok value =>
    let (verdict, s) := s.applyStaged caps node name value
    ((verdict.isOk, setResultReason verdict), s)

def streamSetLoop (caps : ParamCaps) (node : NodeKey) : Nat → ParameterServer → CdrReader →
    CdrWriter → ParameterServer × Except HandlerError CdrWriter
  | 0, s, _, w => (s, .ok w)
  | n + 1, s, r, w =>
    match readSetItem caps r with
    | .error _ => (s, .error .deserializationError)
    | .ok ((name, value), r) =>
      let ((successful, reason), s) := setOne caps s node name value
      match writeSetResult w successful reason with
      | .error _ => (s, .error .serializationError)
      | .ok w => streamSetLoop caps node n s r w

def streamSetParameters (caps : ParamCaps) (s : ParameterServer) (node : NodeKey) (r : CdrReader)
    (w : CdrWriter) : ParameterServer × Except HandlerError CdrWriter :=
  match r.readSequenceLen with
  | .error _ => (s, .error .deserializationError)
  | .ok (count, r) =>
    match w.writeSequenceLen count with
    | .error _ => (s, .error .serializationError)
    | .ok w => streamSetLoop caps node count s r w

/-- Pass 1's judgement of one parameter. -/
def atomicFine (caps : ParamCaps) (s : ParameterServer) (node : NodeKey) (name : String) :
    Except ConversionError ParameterValue → Bool
  | .error _ => false
  | .ok value =>
    decide (byteLen name ≤ wireStringCap) && (s.checkApply caps node name value).isOk

/-- Pass 1 reads to the end, so that a malformed tail fails the request. -/
def atomicCheckLoop (caps : ParamCaps) (s : ParameterServer) (node : NodeKey) : Nat → Bool →
    CdrReader → Except DeserError (Bool × CdrReader)
  | 0, canSetAll, r => .ok (canSetAll, r)
  | n + 1, canSetAll, r => do
    let ((name, value), r) ← readSetItem caps r
    atomicCheckLoop caps s node n (canSetAll && atomicFine caps s node name value) r

/-- Pass 2; what a single write answers is dropped. -/
def atomicApplyLoop (caps : ParamCaps) (node : NodeKey) : Nat → ParameterServer → CdrReader →
    ParameterServer × Except HandlerError Unit
  | 0, s, _ => (s, .ok ())
  | n + 1, s, r =>
    match readSetItem caps r with
    | .error _ => (s, .error .deserializationError)
    | .ok ((_, .error _), r) => atomicApplyLoop caps node n s r
    | .ok ((name, .ok value), r) =>
      atomicApplyLoop caps node n (s.applyStaged caps node name value).2 r

/-- The pass over the whole request that both passes of the atomic handler begin. -/
def atomicPass (body : List UInt8) (version : EncodingVersion) :
    Except DeserError (Nat × CdrReader) := do
  let pass ← rewind body version
  pass.readSequenceLen

def streamSetParametersAtomically (caps : ParamCaps) (s : ParameterServer) (node : NodeKey)
    (r : CdrReader) (w : CdrWriter) : ParameterServer × Except HandlerError CdrWriter :=
  if !r.isAtOrigin then (s, .error .deserializationError)
  else
    match r.readBytes r.remaining with
    | .error _ => (s, .error .deserializationError)
    | .ok (body, _) =>
      match (atomicPass body r.version >>= fun pass =>
        atomicCheckLoop caps s node pass.1 true pass.2) with
      | .error _ => (s, .error .deserializationError)
      | .ok (true, _) =>
        match atomicPass body r.version with
        | .error _ => (s, .error .deserializationError)
        | .ok (count, pass) =>
          match atomicApplyLoop caps node count s pass with
          | (s, .error e) => (s, .error e)
          | (s, .ok ()) => (s, serFailed (writeSetResult w true ""))
      | .ok (false, _) => (s, serFailed (writeSetResult w false atomicFailureReason))

end NanoRos
