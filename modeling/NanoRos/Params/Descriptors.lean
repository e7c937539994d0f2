import NanoRos.Params.Events

/-! Descriptors attached after the declaration, the hooks' registration and the declaration from a
descriptor (`nros-params/src/server.rs`, `types.rs`). -/

namespace NanoRos

/-- The build's capacities for a descriptor's texts, in bytes. -/
structure DescriptionCaps where
  maxParamDescriptionLen : Nat
  maxParamConstraintsLen : Nat

/-- The characters that fit, up to the first that does not. -/
def fitChars : Nat → List Char → List Char
  | _, [] => []
  | room, c :: rest => if c.utf8Size ≤ room then c :: fitChars (room - c.utf8Size) rest else []

/-- As much of the text as the capacity holds, and whether anything was cut. -/
def fitDescription (cap : Nat) (text : String) : String × Bool :=
  let kept := String.ofList (fitChars cap text.toList)
  (kept, decide (byteLen kept < byteLen text))

namespace ParameterDescriptor

def new (caps : ParamCaps) (name : String) (paramType : ParameterType) :
    Option ParameterDescriptor :=
  if caps.maxParamNameLen < byteLen name then none
  else some {
    name
    paramType
    description := ""
    additionalConstraints := ""
    readOnly := false
    dynamicTyping := false
    range := .none
    descriptionTruncated := false }

def setDescription (texts : DescriptionCaps) (desc : ParameterDescriptor) (text : String) :
    Bool × ParameterDescriptor :=
  let (description, cut) := fitDescription texts.maxParamDescriptionLen text
  (cut, { desc with description, descriptionTruncated := cut })

def setAdditionalConstraints (texts : DescriptionCaps) (desc : ParameterDescriptor)
    (text : String) : Bool × ParameterDescriptor :=
  let (additionalConstraints, cut) := fitDescription texts.maxParamConstraintsLen text
  (cut, { desc with
    additionalConstraints, descriptionTruncated := desc.descriptionTruncated || cut })

def clearDescriptionTruncated (desc : ParameterDescriptor) : ParameterDescriptor :=
  { desc with descriptionTruncated := false }

end ParameterDescriptor

namespace ParameterServer

/-- The parameter's descriptor and its slot; an empty one, typed from the stored value, where the
declaration carried none. -/
def descriptorMut (caps : ParamCaps) (s : ParameterServer) (node : NodeKey) (name : String) :
    Option (Nat × ParameterEntry × ParameterDescriptor) :=
  match s.findIndex node name with
  | none => none
  | some idx =>
    match (s.entries[idx]?).bind id with
    | none => none
    | some entry =>
      match entry.descriptor with
      | some desc => some (idx, entry, desc)
      | none =>
        (ParameterDescriptor.new caps name entry.param.value.paramType).map
          fun desc => (idx, entry, desc)

/-- What is written through the reference `descriptor_mut` returns. -/
def setDescriptorAt (s : ParameterServer) (slot : Nat) (entry : ParameterEntry)
    (desc : ParameterDescriptor) : ParameterServer :=
  { s with entries := s.entries.set slot (some { entry with descriptor := some desc }) }

def setParameterDescription (caps : ParamCaps) (texts : DescriptionCaps) (s : ParameterServer)
    (node : NodeKey) (name description additionalConstraints : String) :
    Bool × ParameterServer :=
  match s.descriptorMut caps node name with
  | none => (false, s)
  | some (slot, entry, desc) =>
    let (cut, desc) := desc.setDescription texts description
    let (cutToo, desc) := desc.setAdditionalConstraints texts additionalConstraints
    (true, { s.setDescriptorAt slot entry desc with
      truncationPending := s.truncationPending || (cut || cutToo) })

def setParameterReadOnly (caps : ParamCaps) (s : ParameterServer) (node : NodeKey)
    (name : String) (readOnly : Bool) : Bool × ParameterServer :=
  match s.descriptorMut caps node name with
  | none => (false, s)
  | some (slot, entry, desc) => (true, s.setDescriptorAt slot entry { desc with readOnly })

/-- The range is well formed, and the current value satisfies it. -/
def setParameterRange (caps : ParamCaps) (s : ParameterServer) (node : NodeKey) (name : String)
    (range : ParameterRange) : Bool × ParameterServer :=
  if !range.isValid then (false, s)
  else
    match s.entryOf node name with
    | none => (false, s)
    | some entry =>
      if !range.contains entry.param.value then (false, s)
      else
        match s.descriptorMut caps node name with
        | none => (false, s)
        | some (slot, entry, desc) => (true, s.setDescriptorAt slot entry { desc with range })

def setParameterIntegerRange (caps : ParamCaps) (s : ParameterServer) (node : NodeKey)
    (name : String) (min max step : Int64) : Bool × ParameterServer :=
  s.setParameterRange caps node name (.integer ⟨min, max, step⟩)

def setParameterFloatRange (caps : ParamCaps) (s : ParameterServer) (node : NodeKey)
    (name : String) (min max step : F64) : Bool × ParameterServer :=
  s.setParameterRange caps node name (.floatingPoint ⟨min, max, step⟩)

def declareParameter (caps : ParamCaps) (s : ParameterServer) (node : NodeKey)
    (descriptor : ParameterDescriptor) (initialValue : Option ParameterValue) :
    Except ParameterError Unit × ParameterServer :=
  let name := descriptor.name
  if (s.findIndex node name).isSome then (.error .typeMismatch, s)
  else
    let value := initialValue.getD .notSet
    if !(declarationConsistency (some descriptor) value).isOk then (.error .invalidRange, s)
    else
      match s.findEmptySlot with
      | none => (.error .storageFull, s)
      | some slot =>
        if caps.maxParamNameLen < byteLen name then (.error .storageFull, s)
        else (.ok (), (s.noteDescriptor (some descriptor)).place slot
          ⟨node, ⟨name, value⟩, some descriptor⟩)

def setOrDeclare (caps : ParamCaps) (s : ParameterServer) (node : NodeKey) (name : String)
    (value : ParameterValue) : Except ParameterError Unit × ParameterServer :=
  if (s.findIndex node name).isSome then s.setRef caps node name value
  else
    let (declared, s) := s.declareRef caps node name value
    (if declared then .ok () else .error .storageFull, s)

/-- The parameters whose texts were cut and not yet reported. -/
def takeTruncatedDescriptions (s : ParameterServer) : List (NodeKey × String) × ParameterServer :=
  if !s.truncationPending then ([], s)
  else
    let cut (entry : ParameterEntry) :=
      entry.descriptor.any ParameterDescriptor.descriptionTruncated
    (((s.entries.filterMap id).filter cut).map ParameterEntry.key, { s with
        truncationPending := false
        entries := s.entries.map fun slot => slot.map fun entry => { entry with
          descriptor := entry.descriptor.map ParameterDescriptor.clearDescriptionTruncated } })

def setAllowUndeclared (s : ParameterServer) (node : NodeKey) (on : Bool) : ParameterServer :=
  { s with allowUndeclared := s.allowUndeclared.set node on }

def setDeleteOnNotSet (s : ParameterServer) (node : NodeKey) (on : Bool) : ParameterServer :=
  { s with deleteOnNotSet := s.deleteOnNotSet.set node on }

/-- The handle is the slot; a hook is never evicted for another. -/
def addOnSetParametersCallback (s : ParameterServer) (slot : OnSetCallbackSlot) :
    Option Nat × ParameterServer :=
  match s.onSet.findIdx? Option.isNone with
  | none => (none, s)
  | some idx => (some idx, { s with onSet := s.onSet.set idx (some slot) })

def removeOnSetParametersCallback (s : ParameterServer) (handle : Nat) : Bool × ParameterServer :=
  if (s.onSet[handle]?).any Option.isSome then
    (true, { s with onSet := s.onSet.set handle none })
  else (false, s)

end ParameterServer

end NanoRos
