import NanoRos.Params.Server

/-! Parameter events (`nros-params/src/server.rs`): a node's start-up event is drained from the
table by a cursor, later changes from the log. -/

namespace NanoRos

def NodeFlags.first (flags : NodeFlags) : Option NodeKey :=
  ((List.range 256).find? fun node => flags.has node).map UInt8.ofNat

namespace ParameterServer

def setParameterEvents (s : ParameterServer) (node : NodeKey) (on : Bool) : ParameterServer :=
  let s :=
    if on && !s.eventsEnabled.get node then
      { s with eventsInitial := s.eventsInitial.set node true }
    else s
  let s :=
    if !on then
      let initial := s.eventsInitial.set node false
      { s with
        eventsInitial := initial
        initialCursor := if initial.first.isNone then 0 else s.initialCursor }
    else s
  { s with eventsEnabled := s.eventsEnabled.set node on }

/-- The node's start-up event is through. -/
def endInitial (s : ParameterServer) (node : NodeKey) : ParameterServer :=
  { s with eventsInitial := s.eventsInitial.set node false, initialCursor := 0 }

/-- Every turn that does not return clears a flag. -/
def popInitialLoop : Nat → ParameterServer → Option PendingParameterEvent × ParameterServer
  | 0, s => (none, s)
  | turns + 1, s =>
    match s.eventsInitial.first with
    | none => (none, s)
    | some node =>
      match (s.iter node)[s.initialCursor]? with
      | some p => (some ⟨node, .new, p.name⟩, { s with initialCursor := s.initialCursor + 1 })
      | none =>
        if s.initialCursor = 0 then (some ⟨node, .announce, ""⟩, s.endInitial node)
        else popInitialLoop turns (s.endInitial node)

def popInitialParameterEvent (s : ParameterServer) :
    Option PendingParameterEvent × ParameterServer := popInitialLoop 257 s

def popParameterEvent (s : ParameterServer) : Option PendingParameterEvent × ParameterServer :=
  match s.eventLog with
  | [] => (none, s)
  | event :: log => (some event, { s with eventLog := log })

def takeParameterEventsDropped (s : ParameterServer) : UInt32 × ParameterServer :=
  (s.eventsDropped, { s with eventsDropped := 0 })

/-! Two more writes. -/

def unset (caps : ParamCaps) (s : ParameterServer) (node : NodeKey) (name : String) :
    Except ParameterError Unit × ParameterServer :=
  match s.findIndex node name with
  | none => (.error .notFound, s)
  | some idx =>
    match (s.entries[idx]?).bind id with
    | none => (.error .notFound, s)
    | some entry =>
      if entry.descriptor.any ParameterDescriptor.readOnly then (.error .readOnly, s)
      else (.ok (), (s.setValueAt idx .notSet).noteEvent caps node .changed name)

/-- The owner's set: type and hooks only. -/
def setLocal (caps : ParamCaps) (s : ParameterServer) (node : NodeKey) (name : String)
    (value : ParameterValue) : Except ParameterError Unit × ParameterServer :=
  match s.findIndex node name with
  | none => (.error .notFound, s)
  | some idx =>
    match (s.entries[idx]?).bind id with
    | none => (.error .notFound, s)
    | some entry =>
      let dynamic := entry.descriptor.any ParameterDescriptor.dynamicTyping
      if !dynamic && decide (entry.param.value.paramType ≠ value.paramType) then
        (.error .typeMismatch, s)
      else if !s.runOnSetCallbacks node name (some entry.param.value) (some value) then
        (.error .rejected, s)
      else (.ok (), (s.setValueAt idx value).noteEvent caps node .changed name)

end ParameterServer

/-! The server with a subscriber to one node's events. -/

inductive ParamWrite where
  | declare (value : ParameterValue) (descriptor : Option ParameterDescriptor)
  | set (value : ParameterValue)
  | apply (value : ParameterValue)
  | applyStaged (value : ParameterValue)
  | unset
  | remove
  | setLocal (value : ParameterValue)
  deriving DecidableEq

/-- Whether the write went through, and the server after it. -/
def ParamWrite.perform (caps : ParamCaps) (s : ParameterServer) (node : NodeKey) (name : String) :
    ParamWrite → Bool × ParameterServer
  | .declare value descriptor =>
    let (verdict, s) := s.tryDeclareRef caps node name value descriptor
    (verdict.isOk, s)
  | .set value =>
    let (verdict, s) := s.setRef caps node name value
    (verdict.isOk, s)
  | .apply value =>
    let (verdict, s) := s.apply caps node name value
    (verdict.isOk, s)
  | .applyStaged value =>
    let (verdict, s) := s.applyStaged caps node name value
    (verdict.isOk, s)
  | .unset =>
    let (verdict, s) := s.unset caps node name
    (verdict.isOk, s)
  | .remove => s.remove caps node name
  | .setLocal value =>
    let (verdict, s) := s.setLocal caps node name value
    (verdict.isOk, s)

inductive ParamCall where
  | write (node : NodeKey) (name : String) (w : ParamWrite)
  | events (node : NodeKey) (on : Bool)
  | popInitial
  | popLogged
  | takeDropped
  deriving DecidableEq

/-- `lost` says that a count of dropped events was reported. -/
structure EventSystem where
  server : ParameterServer
  replica : String → Option ParameterValue
  lost : Bool

/-- What the subscriber makes of an event; `s` is the store the event is popped from. -/
def replay (node : NodeKey) (s : ParameterServer) (replica : String → Option ParameterValue)
    (event : PendingParameterEvent) : String → Option ParameterValue :=
  if event.node = node then
    match event.kind with
    | .new => Function.update replica event.name (s.get node event.name)
    | .changed => Function.update replica event.name (s.get node event.name)
    | .deleted => Function.update replica event.name none
    | .announce => replica
  else replica

/-- A pop hands its event, if there is one, to the subscriber. -/
def EventSystem.popped (sys : EventSystem) (node : NodeKey)
    (pop : Option PendingParameterEvent × ParameterServer) : EventSystem :=
  { sys with
    server := pop.2
    replica := (pop.1.map (replay node pop.2 sys.replica)).getD sys.replica }

def EventSystem.step (caps : ParamCaps) (node : NodeKey) (sys : EventSystem) :
    ParamCall → EventSystem
  | .write m name w => { sys with server := (w.perform caps sys.server m name).2 }
  | .events m on => { sys with server := sys.server.setParameterEvents m on }
  | .popInitial => sys.popped node sys.server.popInitialParameterEvent
  | .popLogged => sys.popped node sys.server.popParameterEvent
  | .takeDropped =>
    let (dropped, server) := sys.server.takeParameterEventsDropped
    { sys with server, lost := sys.lost || decide (dropped ≠ 0) }

end NanoRos
