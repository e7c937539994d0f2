import NanoRos.Lib.BoundedVec
import NanoRos.Lib.KeyedSlots
import NanoRos.Params.Values

/-! The parameter store of an executor (`nros-params/src/server.rs`): one table of slots shared by
its nodes, the accept hooks, and the log of changes for `/parameter_events`. -/

namespace NanoRos

inductive ParameterEventKind where
  | new
  | changed
  | deleted
  | announce
  deriving DecidableEq, Repr

structure PendingParameterEvent where
  node : NodeKey
  kind : ParameterEventKind
  name : String
  deriving DecidableEq, Repr

def parameterEventLogLen : Nat := 8

structure ParameterEntry where
  node : NodeKey
  param : Parameter
  descriptor : Option ParameterDescriptor
  deriving DecidableEq, Repr

def ParameterEntry.key (entry : ParameterEntry) : NodeKey × String := (entry.node, entry.param.name)

inductive DeclarationError where
  | alreadyDeclared
  | invalidRange
  | initialValueOutOfRange
  | storageFull
  | nameTooLong
  | noValueAvailable
  deriving DecidableEq, Repr

structure OnSetContext where
  a : UInt64
  b : UInt64
  deriving DecidableEq, Repr

/-- A hook is given the node, the name, the old and the new value and its context. -/
abbrev OnSetParameterFn :=
  NodeKey → String → Option ParameterValue → Option ParameterValue → OnSetContext → Bool

structure OnSetCallbackSlot where
  node : NodeKey
  callback : OnSetParameterFn
  ctx : OnSetContext

def maxOnSetCallbacks : Nat := 4

structure ParameterServer where
  entries : List (Option ParameterEntry)
  count : Nat
  allowUndeclared : NodeFlags
  deleteOnNotSet : NodeFlags
  truncationPending : Bool
  eventsEnabled : NodeFlags
  eventLog : List PendingParameterEvent
  eventsDropped : UInt32
  eventsInitial : NodeFlags
  initialCursor : Nat
  onSet : List (Option OnSetCallbackSlot)

namespace ParameterServer

/-- The server adopts what the table already holds. -/
def newIn (entries : List (Option ParameterEntry)) : ParameterServer where
  entries
  count := KeyedSlots.occupied entries
  allowUndeclared := 0
  deleteOnNotSet := 0
  truncationPending := true
  eventsEnabled := 0
  eventLog := []
  eventsDropped := 0
  eventsInitial := 0
  initialCursor := 0
  onSet := List.replicate maxOnSetCallbacks none

section

variable (s : ParameterServer)

def allowsUndeclared (node : NodeKey) : Bool := s.allowUndeclared.get node

def capacity : Nat := s.entries.length

def isFull : Bool := decide (s.capacity ≤ s.count)

def findIndex (node : NodeKey) (name : String) : Option Nat :=
  KeyedSlots.find ParameterEntry.key s.entries (node, name)

def findEmptySlot : Option Nat := KeyedSlots.free s.entries

/-- The entry `find_index` leads to. -/
def entryOf (node : NodeKey) (name : String) : Option ParameterEntry :=
  KeyedSlots.lookup ParameterEntry.key s.entries (node, name)

def get (node : NodeKey) (name : String) : Option ParameterValue :=
  (s.entryOf node name).map fun entry => entry.param.value

def getParameter (node : NodeKey) (name : String) : Option Parameter :=
  (s.entryOf node name).map ParameterEntry.param

def getDescriptor (node : NodeKey) (name : String) : Option ParameterDescriptor :=
  (s.entryOf node name).bind ParameterEntry.descriptor

def getType (node : NodeKey) (name : String) : Option ParameterType :=
  (s.get node name).map ParameterValue.paramType

/-- The node's parameters, in the order of the slots. -/
def iter (node : NodeKey) : List Parameter :=
  ((s.entries.filterMap id).filter fun entry => decide (entry.node = node)).map
    ParameterEntry.param

/-- Log a change, merging it into an entry already pending for the name. -/
def noteEvent (caps : ParamCaps) (node : NodeKey) (kind : ParameterEventKind) (name : String) :
    ParameterServer :=
  let same (event : PendingParameterEvent) := decide (event.node = node ∧ event.name = name)
  if !s.eventsEnabled.get node || s.eventsInitial.get node then s
  else if s.eventLog.any same then
    { s with eventLog := updateFirst same (fun event => { event with
        kind := if event.kind = .new ∧ kind = .changed then .new else kind }) s.eventLog }
  else if byteLen name ≤ caps.maxParamNameLen ∧ s.eventLog.length < parameterEventLogLen then
    { s with eventLog := s.eventLog ++ [⟨node, kind, name⟩] }
  else { s with eventsDropped := saturatingAdd s.eventsDropped 1 }

def noteDescriptor (descriptor : Option ParameterDescriptor) : ParameterServer :=
  if descriptor.any ParameterDescriptor.descriptionTruncated then
    { s with truncationPending := true }
  else s

/-- The first hook that refuses decides. -/
def runOnSetCallbacks (node : NodeKey) (name : String) (old new : Option ParameterValue) : Bool :=
  (s.onSet.filterMap id).all fun slot =>
    !decide (slot.node = node) || slot.callback node name old new slot.ctx

end

/-! Declarations. -/

def declarationConsistency (descriptor : Option ParameterDescriptor) (value : ParameterValue) :
    Except DeclarationError Unit :=
  match descriptor with
  | some desc =>
    if !desc.range.isValid then .error .invalidRange
    else if !desc.validateRange value then .error .initialValueOutOfRange
    else .ok ()
  | none => .ok ()

/-- Place an entry in a slot that was empty. -/
def place (s : ParameterServer) (slot : Nat) (entry : ParameterEntry) : ParameterServer :=
  { s with entries := s.entries.set slot (some entry), count := s.count + 1 }

def tryDeclareRef (caps : ParamCaps) (s : ParameterServer) (node : NodeKey) (name : String)
    (value : ParameterValue) (descriptor : Option ParameterDescriptor) :
    Except DeclarationError Unit × ParameterServer :=
  if (s.findIndex node name).isSome then (.error .alreadyDeclared, s)
  else
    match declarationConsistency descriptor value with
    | .error e => (.error e, s)
    | .ok () =>
      match s.findEmptySlot with
      | none => (.error .storageFull, s)
      | some slot =>
        if caps.maxParamNameLen < byteLen name then (.error .nameTooLong, s)
        else
          (.ok (), ((s.noteDescriptor descriptor).place slot
            ⟨node, ⟨name, value⟩, descriptor⟩).noteEvent caps node .new name)

def declareRef (caps : ParamCaps) (s : ParameterServer) (node : NodeKey) (name : String)
    (value : ParameterValue) : Bool × ParameterServer :=
  let (verdict, s) := s.tryDeclareRef caps node name value none
  (verdict.isOk, s)

/-! Writes. -/

def checkSetExisting (entry : ParameterEntry) (value : ParameterValue) :
    Except ParameterError Unit :=
  match entry.descriptor with
  | some desc =>
    if desc.readOnly then .error .readOnly
    else if !desc.dynamicTyping && decide (desc.paramType ≠ value.paramType) then
      .error .typeMismatch
    else if !desc.validateRange value then .error .outOfRange
    else .ok ()
  | none => .ok ()

/-- The verdict a wire-facing set would get, without changing anything. -/
def checkApply (caps : ParamCaps) (s : ParameterServer) (node : NodeKey) (name : String)
    (value : ParameterValue) : Except ParameterError Unit :=
  match s.entryOf node name with
  | some entry => checkSetExisting entry value
  | none =>
    if !s.allowsUndeclared node then .error .undeclared
    else if s.isFull then .error .storageFull
    else if caps.maxParamNameLen < byteLen name then .error .storageFull
    else .ok ()

/-- Write the value of the entry in a slot. -/
def setValueAt (s : ParameterServer) (slot : Nat) (value : ParameterValue) : ParameterServer :=
  { s with entries := s.entries.modify slot fun entry =>
      entry.map fun entry => { entry with param := { entry.param with value := value } } }

def setRef (caps : ParamCaps) (s : ParameterServer) (node : NodeKey) (name : String)
    (value : ParameterValue) : Except ParameterError Unit × ParameterServer :=
  match s.findIndex node name with
  | none => (.error .notFound, s)
  | some idx =>
    match (s.entries[idx]?).bind id with
    | none => (.error .notFound, s)
    | some entry =>
      match checkSetExisting entry value with
      | .error e => (.error e, s)
      | .ok () => (.ok (), (s.setValueAt idx value).noteEvent caps node .changed name)

def remove (caps : ParamCaps) (s : ParameterServer) (node : NodeKey) (name : String) :
    Bool × ParameterServer :=
  match s.findIndex node name with
  | some idx =>
    (true, { s with entries := s.entries.set idx none, count := s.count - 1 }.noteEvent caps
      node .deleted name)
  | none => (false, s)

/-- A `NOT_SET` on a node that asked for it is a delete, not a set. -/
def deletes (s : ParameterServer) (node : NodeKey) (value : ParameterValue) : Bool :=
  decide (value = .notSet) && s.deleteOnNotSet.get node

def applyDelete (caps : ParamCaps) (s : ParameterServer) (node : NodeKey) (name : String) :
    Except ParameterError Unit × ParameterServer :=
  match s.entryOf node name with
  | none => (.error .notFound, s)
  | some entry =>
    if entry.descriptor.any ParameterDescriptor.readOnly then (.error .readOnly, s)
    else if !s.runOnSetCallbacks node name (s.get node name) none then (.error .rejected, s)
    else (.ok (), (s.remove caps node name).2)

def applyRef (caps : ParamCaps) (s : ParameterServer) (node : NodeKey) (name : String)
    (value : ParameterValue) : Except ParameterError Unit × ParameterServer :=
  if s.deletes node value then s.applyDelete caps node name
  else
    match s.checkApply caps node name value with
    | .error e => (.error e, s)
    | .ok () =>
      if !s.runOnSetCallbacks node name (s.get node name) (some value) then (.error .rejected, s)
      else if (s.findIndex node name).isSome then s.setRef caps node name value
      else
        let (declared, s) := s.declareRef caps node name value
        (if declared then .ok () else .error .storageFull, s)

def apply (caps : ParamCaps) (s : ParameterServer) (node : NodeKey) (name : String)
    (value : ParameterValue) : Except ParameterError Unit × ParameterServer :=
  s.applyRef caps node name value

def declarePlaceholder (caps : ParamCaps) (s : ParameterServer) (node : NodeKey)
    (name : String) : Option (Nat × ParameterServer) :=
  match s.findEmptySlot with
  | none => none
  | some slot =>
    if caps.maxParamNameLen < byteLen name then none
    else some (slot, s.place slot ⟨node, ⟨name, .notSet⟩, none⟩)

/-- The slot the staged value is swapped into, and the kind of the event. -/
def stagingTarget (caps : ParamCaps) (s : ParameterServer) (node : NodeKey) (name : String) :
    Option (Nat × ParameterEventKind × ParameterServer) :=
  match s.findIndex node name with
  | some idx => some (idx, .changed, s)
  | none => (s.declarePlaceholder caps node name).map fun (idx, s) => (idx, .new, s)

/-- `staged` is the value in the slot; what the slot holds afterwards is scratch. -/
def applyStaged (caps : ParamCaps) (s : ParameterServer) (node : NodeKey) (name : String)
    (staged : ParameterValue) : Except ParameterError Unit × ParameterServer :=
  if s.deletes node staged then s.applyDelete caps node name
  else
    match s.checkApply caps node name staged with
    | .error e => (.error e, s)
    | .ok () =>
      if !s.runOnSetCallbacks node name (s.get node name) (some staged) then
        (.error .rejected, s)
      else
        match s.stagingTarget caps node name with
        | none => (.error .storageFull, s)
        | some (idx, kind, s) =>
          match (s.entries[idx]?).bind id with
          | some _ => (.ok (), (s.setValueAt idx staged).noteEvent caps node kind name)
          | none => (.error .notFound, s)

/-! The atomic set. An item is `none` when it could not be turned into a value. -/

abbrev SetItem := Option (String × ParameterValue)

def checkAll (caps : ParamCaps) (s : ParameterServer) (node : NodeKey) :
    List SetItem → Except ParameterError Unit
  | [] => .ok ()
  | none :: _ => .error .typeMismatch
  | some (name, value) :: items => do
    s.checkApply caps node name value
    if !s.runOnSetCallbacks node name (s.get node name) (some value) then throw .rejected
    checkAll caps s node items

/-- The write pass; what a single write answers is dropped. -/
def applyAll (caps : ParamCaps) (node : NodeKey) (s : ParameterServer) (items : List SetItem) :
    ParameterServer :=
  items.foldl (fun s item =>
    match item with
    | none => s
    | some (name, value) => (s.applyRef caps node name value).2) s

def applyAtomically (caps : ParamCaps) (s : ParameterServer) (node : NodeKey)
    (items : List SetItem) : Except ParameterError Unit × ParameterServer :=
  match s.checkAll caps node items with
  | .error e => (.error e, s)
  | .ok () => (.ok (), s.applyAll caps node items)

end ParameterServer

end NanoRos
