import NanoRos.Lib.BoundedVec
import NanoRos.Lib.Runs
import NanoRos.Lib.Slab
import NanoRos.Serdes.Cdr

/-! The type-agnostic action server (`action_core.rs`): active goals, the slab of completed results,
the `get_result` requests that wait for their goal to end. -/

namespace NanoRos

open Memory

structure GoalUuid where
  uuid : Vector UInt8 16
  deriving DecidableEq, Repr

instance : Inhabited GoalUuid := ⟨⟨Vector.replicate 16 0⟩⟩

inductive GoalStatusCode where
  | unknown
  | accepted
  | executing
  | canceling
  | succeeded
  | canceled
  | aborted
  deriving DecidableEq, Repr

def GoalStatusCode.toI8 : GoalStatusCode → Int8
  | .unknown => 0
  | .accepted => 1
  | .executing => 2
  | .canceling => 3
  | .succeeded => 4
  | .canceled => 5
  | .aborted => 6

structure Time where
  sec : Int32
  nanosec : UInt32
  deriving DecidableEq, Repr

/-- The transport errors that the action server tells apart. -/
inductive TransportError where
  | noData
  | wouldBlock
  | serviceRequestFailed
  | deserializationError
  | other (text : String)
  deriving DecidableEq, Repr

inductive NodeError where
  | transport (e : TransportError)
  | bufferTooSmall
  | serialization
  | deserialization
  | serviceReplyFailed
  | serviceRequestFailed
  | requestInFlight
  deriving DecidableEq, Repr

structure ServiceServer where
  /-- Whether the backend takes the `n`-th reply. -/
  accepts : Nat → Bool
  calls : Nat
  sent : List (Int64 × List UInt8)

def ServiceServer.sendResponse (s : ServiceServer) (sequenceNumber : Int64) (data : List UInt8) :
    Except NodeError Unit × ServiceServer :=
  if s.accepts s.calls then
    (.ok (), { s with calls := s.calls + 1, sent := s.sent ++ [(sequenceNumber, data)] })
  else (.error .serviceReplyFailed, { s with calls := s.calls + 1 })

/-- A request that lies in the first `size` bytes of the buffer it was taken into. -/
structure ServiceRequest (size : Nat) where
  dataOffset : Nat
  dataLen : Nat
  inside : dataOffset + dataLen ≤ size
  sequenceNumber : Int64

/-- What `take_request` leaves in the buffer, and what it returns. -/
structure Take (size : Nat) where
  buf : List UInt8
  sized : buf.length = size
  outcome : Except TransportError (Option (ServiceRequest size))

structure RawActiveGoal where
  goalId : GoalUuid
  status : GoalStatusCode
  stamp : Time
  deriving DecidableEq, Repr

structure PendingGetResult where
  goalId : GoalUuid
  sequenceNumber : Int64
  deriving DecidableEq, Repr

structure CompletedResultEntry where
  goalId : GoalUuid
  status : GoalStatusCode
  offset : Nat
  len : Nat
  delivered : Bool
  deriving DecidableEq, Repr

def resultExtents : Extents CompletedResultEntry where
  offset := CompletedResultEntry.offset
  len := CompletedResultEntry.len
  place := fun entry offset => { entry with offset := offset }
  offset_place := fun _ _ => rfl
  len_place := fun _ _ => rfl

def cancelBuf : Nat := 256

structure ActionServerCore (goalBuf resultBuf maxGoals : Nat) where
  sendGoalServer : ServiceServer
  getResultServer : ServiceServer
  activeGoals : BoundedVec RawActiveGoal maxGoals
  completedResults : BoundedVec CompletedResultEntry maxGoals
  pendingGetResults : BoundedVec PendingGetResult maxGoals
  resultSlab : List UInt8
  resultSlabUsed : Nat
  goalBuffer : List UInt8
  cancelBuffer : List UInt8

/-- `uint8[16]`, no length prefix. -/
def readGoalId (reader : CdrReader) : Except NodeError (GoalUuid × CdrReader) :=
  (List.finRange 16).foldlM (fun (read : GoalUuid × CdrReader) (i : Fin 16) =>
    match read.2.readU8 with
    | .ok (byte, reader) => .ok (⟨read.1.uuid.set i.val byte i.isLt⟩, reader)
    | .error _ => .error (.transport .deserializationError)) (default, reader)

/-- How every server of the action reads the outcome of a take. -/
def received {size : Nat} : Except TransportError (Option (ServiceRequest size)) →
    Except NodeError (Option (ServiceRequest size))
  | .ok request => .ok request
  | .error .noData => .ok none
  | .error .wouldBlock => .error (.transport .wouldBlock)
  | .error _ => .error (.transport .serviceRequestFailed)

/-- The goal id at the front of a request. -/
def requestGoalId {size : Nat} (buf : List UInt8) (request : ServiceRequest size) :
    Except NodeError GoalUuid := do
  let reader ← (CdrReader.newWithHeader (slice buf request.dataOffset request.dataLen)).mapError
    fun _ => NodeError.transport .deserializationError
  let (goalId, _) ← readGoalId reader
  return goalId

structure RawGoalRequest where
  goalId : GoalUuid
  sequenceNumber : Int64
  dataOffset : Nat
  dataLen : Nat
  deriving DecidableEq, Repr

namespace ActionServerCore

variable {goalBuf resultBuf maxGoals : Nat}

def fromChannels (sendGoalServer getResultServer : ServiceServer) :
    ActionServerCore goalBuf resultBuf maxGoals where
  sendGoalServer := sendGoalServer
  getResultServer := getResultServer
  activeGoals := .empty
  completedResults := .empty
  pendingGetResults := .empty
  resultSlab := List.replicate resultBuf 0
  resultSlabUsed := 0
  goalBuffer := List.replicate goalBuf 0
  cancelBuffer := List.replicate cancelBuf 0

/-- Every request is taken into the goal buffer. -/
def takeRequest (core : ActionServerCore goalBuf resultBuf maxGoals) (take : Take goalBuf) :
    ActionServerCore goalBuf resultBuf maxGoals := { core with goalBuffer := take.buf }

def tryRecvGoalRequest (core : ActionServerCore goalBuf resultBuf maxGoals) (take : Take goalBuf) :
    Except NodeError (Option RawGoalRequest) × ActionServerCore goalBuf resultBuf maxGoals :=
  let core := core.takeRequest take
  match received take.outcome with
  | .error e => (.error e, core)
  | .ok none => (.ok none, core)
  | .ok (some request) =>
    match requestGoalId core.goalBuffer request with
    | .error e => (.error e, core)
    | .ok goalId =>
      (.ok (some ⟨goalId, request.sequenceNumber, request.dataOffset, request.dataLen⟩), core)

/-- `[CDR header][accepted u8][stamp]` in the cancel buffer, and its length. -/
def goalReply (core : ActionServerCore goalBuf resultBuf maxGoals) (accepted : UInt8)
    (stamp : Time) : Except NodeError (Nat × ActionServerCore goalBuf resultBuf maxGoals) := do
  let writer ← (CdrWriter.newWithHeader core.cancelBuffer).mapError fun _ => NodeError.bufferTooSmall
  let writer ← (writer.writeU8 accepted).mapError fun _ => NodeError.serialization
  let writer ← (writer.writeI32 stamp.sec).mapError fun _ => NodeError.serialization
  let writer ← (writer.writeU32 stamp.nanosec).mapError fun _ => NodeError.serialization
  return (writer.position, { core with cancelBuffer := writer.buf })

def rejectGoal (core : ActionServerCore goalBuf resultBuf maxGoals) (seq : Int64) :
    Except NodeError Unit × ActionServerCore goalBuf resultBuf maxGoals :=
  match core.goalReply 0 ⟨0, 0⟩ with
  | .error e => (.error e, core)
  | .ok (replyLen, core) =>
    let sent := core.sendGoalServer.sendResponse seq (core.cancelBuffer.take replyLen)
    (sent.1, { core with sendGoalServer := sent.2 })

/-- `stamp` is the ROS clock when the goal is accepted. -/
def acceptGoal (core : ActionServerCore goalBuf resultBuf maxGoals) (goalId : GoalUuid)
    (seq : Int64) (stamp : Time) :
    Except NodeError Unit × ActionServerCore goalBuf resultBuf maxGoals :=
  match core.goalReply 1 stamp with
  | .error e => (.error e, core)
  | .ok (replyLen, core) =>
    match core.activeGoals.push ⟨goalId, .accepted, stamp⟩ with
    | none => core.rejectGoal seq
    | some activeGoals =>
      let core : ActionServerCore goalBuf resultBuf maxGoals :=
        { core with activeGoals := activeGoals }
      match core.sendGoalServer.sendResponse seq (core.cancelBuffer.take replyLen) with
      | (.ok _, server) => (.ok (), { core with sendGoalServer := server })
      | (.error _, server) => (.error .serviceReplyFailed, { core with
          sendGoalServer := server
          activeGoals := core.activeGoals.pop })

def setGoalStatus (core : ActionServerCore goalBuf resultBuf maxGoals) (goalId : GoalUuid)
    (status : GoalStatusCode) : ActionServerCore goalBuf resultBuf maxGoals :=
  { core with
    activeGoals := core.activeGoals.update (fun goal => goal.goalId = goalId)
      fun goal => { goal with status := status } }

def compactResultSlab (core : ActionServerCore goalBuf resultBuf maxGoals) :
    ActionServerCore goalBuf resultBuf maxGoals :=
  let compacted := resultExtents.compact 0 core.completedResults.items core.resultSlab
  { core with
    completedResults := ⟨compacted.2.1, by
      rw [resultExtents.length_compact]
      exact core.completedResults.fits⟩
    resultSlab := compacted.2.2
    resultSlabUsed := compacted.1 }

def setCompletedResults (core : ActionServerCore goalBuf resultBuf maxGoals)
    (completedResults : BoundedVec CompletedResultEntry maxGoals) :
    ActionServerCore goalBuf resultBuf maxGoals :=
  { core with completedResults := completedResults }

def dropCompletedResult (core : ActionServerCore goalBuf resultBuf maxGoals) (goalId : GoalUuid) :
    Bool × ActionServerCore goalBuf resultBuf maxGoals :=
  match core.completedResults.items.findIdx? fun entry => entry.goalId = goalId with
  | some idx =>
    (true, (core.setCompletedResults (core.completedResults.remove idx)).compactResultSlab)
  | none => (false, core)

/-- The oldest delivered result goes first, then the oldest. -/
def evictOneCompletedResult (core : ActionServerCore goalBuf resultBuf maxGoals) :
    Bool × ActionServerCore goalBuf resultBuf maxGoals :=
  if core.completedResults.items.isEmpty then (false, core)
  else
    let idx := (core.completedResults.items.findIdx? fun entry => entry.delivered).getD 0
    (true, (core.setCompletedResults (core.completedResults.remove idx)).compactResultSlab)

/-- The `loop` of `reserve_result_space`; every turn but the last evicts one result. -/
def reserveLoop (needed : Nat) : Nat → ActionServerCore goalBuf resultBuf maxGoals →
    Except NodeError Unit × ActionServerCore goalBuf resultBuf maxGoals
  | 0, core => (.error .bufferTooSmall, core)
  | turns + 1, core =>
    if core.completedResults.len < maxGoals ∧ resultBuf - core.resultSlabUsed ≥ needed then
      (.ok (), core)
    else
      match core.evictOneCompletedResult with
      | (false, core) => (.error .bufferTooSmall, core)
      | (true, core) => reserveLoop needed turns core

def reserveResultSpace (core : ActionServerCore goalBuf resultBuf maxGoals) (needed : Nat) :
    Except NodeError Unit × ActionServerCore goalBuf resultBuf maxGoals :=
  if needed > resultBuf then (.error .bufferTooSmall, core)
  else reserveLoop needed (core.completedResults.len + 1) core

def markResultDelivered (core : ActionServerCore goalBuf resultBuf maxGoals) (goalId : GoalUuid) :
    ActionServerCore goalBuf resultBuf maxGoals :=
  { core with
    completedResults := core.completedResults.update (fun entry => entry.goalId = goalId)
      fun entry => { entry with delivered := true } }

def expireCompletedResults (core : ActionServerCore goalBuf resultBuf maxGoals) :
    Nat × ActionServerCore goalBuf resultBuf maxGoals :=
  let before := core.completedResults.len
  let core := core.setCompletedResults (core.completedResults.retain fun e => !e.delivered)
  let removed := before - core.completedResults.len
  (removed, if removed > 0 then core.compactResultSlab else core)

/-- `[CDR header][status i8][pad to 4]` in the goal buffer, and where the result goes. -/
def writeGetResultHeader (core : ActionServerCore goalBuf resultBuf maxGoals)
    (status : GoalStatusCode) :
    Except NodeError (Nat × ActionServerCore goalBuf resultBuf maxGoals) := do
  let writer ← (CdrWriter.newWithHeader core.goalBuffer).mapError fun _ => NodeError.bufferTooSmall
  let writer ← (writer.writeI8 status.toI8).mapError fun _ => NodeError.serialization
  let writer ← (writer.align 4).mapError fun _ => NodeError.serialization
  return (writer.position, { core with goalBuffer := writer.buf })

/-- The reply that the two `reply_get_result_*` functions send, `len` result bytes long. -/
def replyGetResult (core : ActionServerCore goalBuf resultBuf maxGoals) (sequenceNumber : Int64)
    (status : GoalStatusCode) (len : Nat) (bytes : List UInt8) :
    Except NodeError Unit × ActionServerCore goalBuf resultBuf maxGoals :=
  match core.writeGetResultHeader status with
  | .error e => (.error e, core)
  | .ok (pos, core) =>
    if pos + len > goalBuf then (.error .bufferTooSmall, core)
    else
      let core : ActionServerCore goalBuf resultBuf maxGoals :=
        { core with goalBuffer := overwrite core.goalBuffer pos bytes }
      let replyLen := pos + len
      let sent := core.getResultServer.sendResponse sequenceNumber (core.goalBuffer.take replyLen)
      (sent.1, { core with getResultServer := sent.2 })

def replyGetResultFromSlab (core : ActionServerCore goalBuf resultBuf maxGoals)
    (sequenceNumber : Int64) (status : GoalStatusCode) (slabOffset slabLen : Nat) :
    Except NodeError Unit × ActionServerCore goalBuf resultBuf maxGoals :=
  core.replyGetResult sequenceNumber status slabLen (slice core.resultSlab slabOffset slabLen)

def replyGetResultBytes (core : ActionServerCore goalBuf resultBuf maxGoals)
    (sequenceNumber : Int64) (status : GoalStatusCode) (bytes : List UInt8) :
    Except NodeError Unit × ActionServerCore goalBuf resultBuf maxGoals :=
  core.replyGetResult sequenceNumber status bytes.length bytes

/-- The reply to one waiter: from the slab when the result was stored there. -/
def replyWaiter (core : ActionServerCore goalBuf resultBuf maxGoals) (status : GoalStatusCode)
    (resultCdr : List UInt8) (stored : Option (Nat × Nat)) (seq : Int64) :
    Except NodeError Unit × ActionServerCore goalBuf resultBuf maxGoals :=
  match stored with
  | some (offset, len) => core.replyGetResultFromSlab seq status offset len
  | none => core.replyGetResultBytes seq status resultCdr

def removeWaiter (core : ActionServerCore goalBuf resultBuf maxGoals) (i : Nat) :
    ActionServerCore goalBuf resultBuf maxGoals :=
  { core with pendingGetResults := core.pendingGetResults.swapRemove i }

/-- The `while` loop that answers the waiters of `goalId`: whether a reply was sent. Every turn
removes a waiter or steps over one, so there are as many turns as waiters. -/
def flushLoop (goalId : GoalUuid) (status : GoalStatusCode) (resultCdr : List UInt8)
    (stored : Option (Nat × Nat)) :
    Nat → Nat → Bool → ActionServerCore goalBuf resultBuf maxGoals →
      Bool × ActionServerCore goalBuf resultBuf maxGoals
  | 0, _, deliveredAny, core => (deliveredAny, core)
  | turns + 1, i, deliveredAny, core =>
    match core.pendingGetResults.items[i]? with
    | none => (deliveredAny, core)
    | some waiter =>
      if waiter.goalId = goalId then
        let core := core.removeWaiter i
        let sent := core.replyWaiter status resultCdr stored waiter.sequenceNumber
        flushLoop goalId status resultCdr stored turns i (deliveredAny || sent.1.isOk) sent.2
      else flushLoop goalId status resultCdr stored turns (i + 1) deliveredAny core

/-- Keep the result in the slab, where it fits: its offset and length. -/
def storeResult (core : ActionServerCore goalBuf resultBuf maxGoals) (goalId : GoalUuid)
    (status : GoalStatusCode) (resultCdr : List UInt8) :
    Option (Nat × Nat) × ActionServerCore goalBuf resultBuf maxGoals :=
  match core.reserveResultSpace resultCdr.length with
  | (.error _, core) => (none, core)
  | (.ok _, core) =>
    let offset := core.resultSlabUsed
    let core : ActionServerCore goalBuf resultBuf maxGoals := { core with
      resultSlab := overwrite core.resultSlab offset resultCdr
      resultSlabUsed := offset + resultCdr.length
      completedResults :=
        (core.completedResults.push ⟨goalId, status, offset, resultCdr.length, false⟩).getD
          core.completedResults }
    (some (offset, resultCdr.length), core)

def removeActiveGoal (core : ActionServerCore goalBuf resultBuf maxGoals) (goalId : GoalUuid) :
    ActionServerCore goalBuf resultBuf maxGoals :=
  match core.activeGoals.items.findIdx? fun goal => goal.goalId = goalId with
  | some pos => { core with activeGoals := core.activeGoals.swapRemove pos }
  | none => core

/-- Answer the waiters; a result that reached one of them counts as delivered. -/
def flushWaiters (core : ActionServerCore goalBuf resultBuf maxGoals) (goalId : GoalUuid)
    (status : GoalStatusCode) (resultCdr : List UInt8) (stored : Option (Nat × Nat)) :
    ActionServerCore goalBuf resultBuf maxGoals :=
  let flushed :=
    flushLoop goalId status resultCdr stored core.pendingGetResults.len 0 false core
  if flushed.1 then flushed.2.markResultDelivered goalId else flushed.2

def completeGoalRaw (core : ActionServerCore goalBuf resultBuf maxGoals) (goalId : GoalUuid)
    (status : GoalStatusCode) (resultCdr : List UInt8) :
    Except NodeError Unit × ActionServerCore goalBuf resultBuf maxGoals :=
  let core := core.removeActiveGoal goalId
  let core := (core.dropCompletedResult goalId).2
  let (stored, core) := core.storeResult goalId status resultCdr
  let core := core.flushWaiters goalId status resultCdr stored
  (if stored.isSome then .ok () else .error .bufferTooSmall, core)

/-- `try_handle_get_result_raw` once the request names `goalId`. -/
def answerGetResult (core : ActionServerCore goalBuf resultBuf maxGoals) (goalId : GoalUuid)
    (sequenceNumber : Int64) (defaultResultCdr : List UInt8) :
    Except NodeError (Option GoalUuid) × ActionServerCore goalBuf resultBuf maxGoals :=
  match core.completedResults.items.find? fun entry => entry.goalId = goalId with
  | some entry =>
    match core.replyGetResultFromSlab sequenceNumber entry.status entry.offset entry.len with
    | (.error e, core) => (.error e, core)
    | (.ok _, core) => (.ok (some goalId), core.markResultDelivered goalId)
  | none =>
    if core.activeGoals.items.any fun goal => goal.goalId = goalId then
      match core.pendingGetResults.push ⟨goalId, sequenceNumber⟩ with
      | none => (.error .bufferTooSmall, core)
      | some pending => (.ok (some goalId), { core with pendingGetResults := pending })
    else
      match core.replyGetResultBytes sequenceNumber .unknown defaultResultCdr with
      | (.error e, core) => (.error e, core)
      | (.ok _, core) => (.ok (some goalId), core)

def tryHandleGetResultRaw (core : ActionServerCore goalBuf resultBuf maxGoals)
    (take : Take goalBuf) (defaultResultCdr : List UInt8) :
    Except NodeError (Option GoalUuid) × ActionServerCore goalBuf resultBuf maxGoals :=
  let core := core.takeRequest take
  match received take.outcome with
  | .error e => (.error e, core)
  | .ok none => (.ok none, core)
  | .ok (some request) =>
    match requestGoalId core.goalBuffer request with
    | .error e => (.error e, core)
    | .ok goalId => core.answerGetResult goalId request.sequenceNumber defaultResultCdr

end ActionServerCore

end NanoRos
