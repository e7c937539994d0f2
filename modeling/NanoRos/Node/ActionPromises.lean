import NanoRos.Node.CancelGoals
import NanoRos.Node.GoalWire
import NanoRos.Node.Promise

/-! The typed action client (`ActionClient` of `handles.rs`): three request/reply channels behind
one handle, each with its flag and its correlator, and one buffer for the replies of all three. -/

namespace NanoRos

open Memory

def CancelResponseCode.fromI8 (value : Int8) : Option CancelResponseCode :=
  if value = 0 then some .ok
  else if value = 1 then some .rejected
  else if value = 2 then some .unknownGoal
  else if value = 3 then some .goalTerminated
  else none

/-- An action type, by its goal's `serialize` and its result's `deserialize`. -/
structure RosAction (γ ρ : Type) where
  serializeGoal : γ → CdrWriter → Except SerError CdrWriter
  deserializeResult : CdrReader → Except DeserError (ρ × CdrReader)

def parseGoalAccepted (data : List UInt8) : Except NodeError Bool := do
  let reader ← (CdrReader.newWithHeader data).mapError fun _ => NodeError.serviceRequestFailed
  let (accepted, _) ← reader.readU8.mapError fun _ => NodeError.serviceRequestFailed
  return accepted != 0

def parseCancelResponse (data : List UInt8) : Except NodeError CancelResponseCode := do
  let reader ← (CdrReader.newWithHeader data).mapError fun _ => NodeError.serviceRequestFailed
  let (returnCode, _) ← reader.readI8.mapError fun _ => NodeError.serviceRequestFailed
  return (CancelResponseCode.fromI8 returnCode).getD .ok

def RosAction.parseResultResponse {γ ρ : Type} (action : RosAction γ ρ) (data : List UInt8) :
    Except NodeError (GoalStatusCode × ρ) := do
  let reader ← (CdrReader.newWithHeader data).mapError fun _ => NodeError.serviceRequestFailed
  let (statusCode, reader) ← reader.readI8.mapError fun _ => NodeError.serviceRequestFailed
  let status := (GoalStatusCode.fromI8 statusCode).getD .unknown
  let (result, _) ← (action.deserializeResult reader).mapError
    fun _ => NodeError.serviceRequestFailed
  return (status, result)

theorem RosAction.parseResultResponse_eq {γ : Type} (action : RosAction γ Value) (ty : FieldType)
    (emitted : action.deserializeResult = deserialize ty) :
    action.parseResultResponse = NanoRos.parseResultResponse ty := by
  funext data
  rw [parseResultResponse, emitted]
  rfl

abbrev ActionRequests : Type := RequestCorrelator GoalUuid maxConcurrentGoals

/-- The body of `send_cancel_request_stamped` and of `send_get_result_request`: `write` is what
the two put behind the encapsulation header. -/
def sendRequest (client : RmwServiceClient) (pending : ActionRequests) (goalBuffer : List UInt8)
    (goalId : GoalUuid) (write : CdrWriter → Except NodeError CdrWriter) :
    Except NodeError Int64 × RmwServiceClient × ActionRequests × List UInt8 :=
  match pending.canSend with
  | .error _ => (.error .requestInFlight, client, pending, goalBuffer)
  | .ok _ =>
    match CdrWriter.newWithHeader goalBuffer with
    | .error _ => (.error .bufferTooSmall, client, pending, goalBuffer)
    | .ok writer =>
      match write writer with
      | .error e => (.error e, client, pending, goalBuffer)
      | .ok writer =>
        match client.sendRequestRaw (writer.buf.take writer.position) with
        | (.error _, client) => (.error .serviceRequestFailed, client, pending, writer.buf)
        | (.ok seq, client) =>
          (.ok seq, client, match pending.insert seq goalId with
            | .ok pending => pending
            | .error _ => pending, writer.buf)

/-- The three services of an action. -/
inductive ActionRpc where
  | sendGoal
  | cancelGoal
  | getResult
  deriving DecidableEq

def ActionRpc.Reply (ρ : Type) : ActionRpc → Type
  | .sendGoal => Bool
  | .cancelGoal => CancelResponseCode
  | .getResult => GoalStatusCode × ρ

def RosAction.parse {γ ρ : Type} (action : RosAction γ ρ) :
    (rpc : ActionRpc) → List UInt8 → Except NodeError (rpc.Reply ρ)
  | .sendGoal => parseGoalAccepted
  | .cancelGoal => parseCancelResponse
  | .getResult => action.parseResultResponse

structure TypedActionClient (goalBuf resultBuf : Nat) extends ActionClient goalBuf where
  cancelGoalClient : RmwServiceClient
  getResultClient : RmwServiceClient
  /-- The receiving half of each of the three clients. -/
  replies : ActionRpc → ReplyQueue resultBuf
  resultBuffer : List UInt8
  inFlightCancel : Bool
  inFlightGetResult : Bool
  pendingCancel : ActionRequests
  pendingGetResult : ActionRequests

namespace TypedActionClient

variable {γ ρ α : Type} {goalBuf resultBuf : Nat}

def new (sendGoalClient cancelGoalClient getResultClient : RmwServiceClient) :
    TypedActionClient goalBuf resultBuf where
  core := .new sendGoalClient
  cancelGoalClient := cancelGoalClient
  getResultClient := getResultClient
  replies := fun _ => .new resultBuf
  resultBuffer := List.replicate resultBuf 0
  inFlightSendGoal := false
  inFlightCancel := false
  inFlightGetResult := false
  pendingCancel := .new
  pendingGetResult := .new

def sendGoal (action : RosAction γ ρ) (client : TypedActionClient goalBuf resultBuf) (goal : γ) :
    Except NodeError GoalUuid × TypedActionClient goalBuf resultBuf :=
  if client.inFlightSendGoal then (.error .requestInFlight, client)
  else
    match action.serializeGoal goal (CdrWriter.new (List.replicate goalBuf 0)) with
    | .error _ => (.error .serialization, client)
    | .ok writer =>
      match client.core.sendGoalRaw (writer.buf.take writer.position) with
      | (.error e, core) => (.error e, { client with core := core })
      | (.ok goalId, core) =>
        (.ok goalId, { client with core := core, inFlightSendGoal := true })

def sendCancelRequestStamped (client : TypedActionClient goalBuf resultBuf) (goalId : GoalUuid)
    (stamp : Time) : Except NodeError Int64 × TypedActionClient goalBuf resultBuf :=
  match sendRequest client.cancelGoalClient client.pendingCancel client.core.goalBuffer goalId
      fun writer => do
        let writer ← writeGoalId writer goalId
        let writer ← (writer.writeI32 stamp.sec).mapError fun _ => NodeError.serialization
        (writer.writeU32 stamp.nanosec).mapError fun _ => NodeError.serialization with
  | (result, handle, pending, buffer) => (result, { client with
      core := { client.core with goalBuffer := buffer }
      cancelGoalClient := handle
      pendingCancel := pending })

def sendCancelRequest (client : TypedActionClient goalBuf resultBuf) (goalId : GoalUuid) :
    Except NodeError Int64 × TypedActionClient goalBuf resultBuf :=
  client.sendCancelRequestStamped goalId ⟨0, 0⟩

def sendGetResultRequest (client : TypedActionClient goalBuf resultBuf) (goalId : GoalUuid) :
    Except NodeError Int64 × TypedActionClient goalBuf resultBuf :=
  match sendRequest client.getResultClient client.pendingGetResult client.core.goalBuffer goalId
      fun writer => writeGoalId writer goalId with
  | (result, handle, pending, buffer) => (result, { client with
      core := { client.core with goalBuffer := buffer }
      getResultClient := handle
      pendingGetResult := pending })

def cancelGoal (client : TypedActionClient goalBuf resultBuf) (goalId : GoalUuid) :
    Except NodeError Unit × TypedActionClient goalBuf resultBuf :=
  if client.inFlightCancel then (.error .requestInFlight, client)
  else
    match client.sendCancelRequest goalId with
    | (.error e, client) => (.error e, client)
    | (.ok _, client) => (.ok (), { client with inFlightCancel := true })

def getResult (client : TypedActionClient goalBuf resultBuf) (goalId : GoalUuid) :
    Except NodeError Unit × TypedActionClient goalBuf resultBuf :=
  if client.inFlightGetResult then (.error .requestInFlight, client)
  else
    match client.sendGetResultRequest goalId with
    | (.error e, client) => (.error e, client)
    | (.ok _, client) => (.ok (), { client with inFlightGetResult := true })

def resetSendGoalInFlight (client : TypedActionClient goalBuf resultBuf) :
    TypedActionClient goalBuf resultBuf :=
  { client with
    inFlightSendGoal := false
    core := { client.core with pendingSendGoal := client.core.pendingSendGoal.clear } }

def resetCancelInFlight (client : TypedActionClient goalBuf resultBuf) :
    TypedActionClient goalBuf resultBuf :=
  { client with inFlightCancel := false, pendingCancel := client.pendingCancel.clear }

def resetGetResultInFlight (client : TypedActionClient goalBuf resultBuf) :
    TypedActionClient goalBuf resultBuf :=
  { client with inFlightGetResult := false, pendingGetResult := client.pendingGetResult.clear }

def reset (client : TypedActionClient goalBuf resultBuf) :
    ActionRpc → TypedActionClient goalBuf resultBuf
  | .sendGoal => client.resetSendGoalInFlight
  | .cancelGoal => client.resetCancelInFlight
  | .getResult => client.resetGetResultInFlight

def channel (client : TypedActionClient goalBuf resultBuf) :
    ActionRpc → RequestChannel GoalUuid maxConcurrentGoals
  | .sendGoal =>
    ⟨client.core.sendGoalClient, client.inFlightSendGoal, client.core.pendingSendGoal⟩
  | .cancelGoal => ⟨client.cancelGoalClient, client.inFlightCancel, client.pendingCancel⟩
  | .getResult => ⟨client.getResultClient, client.inFlightGetResult, client.pendingGetResult⟩

/-- What the promise of a call that is `.ok` borrows. -/
def promise (client : TypedActionClient goalBuf resultBuf) (rpc : ActionRpc) :
    Promise GoalUuid maxConcurrentGoals resultBuf :=
  (client.channel rpc).promise (client.replies rpc) client.resultBuffer

/-- The client once the promise is given back. -/
def after (client : TypedActionClient goalBuf resultBuf) (rpc : ActionRpc)
    (promise : Promise GoalUuid maxConcurrentGoals resultBuf) :
    TypedActionClient goalBuf resultBuf :=
  let client := { client with
    replies := Function.update client.replies rpc promise.handle
    resultBuffer := promise.replyBuffer }
  match rpc with
  | .sendGoal => { client with
      inFlightSendGoal := promise.inFlightFlag
      core := { client.core with pendingSendGoal := promise.pending } }
  | .cancelGoal => { client with
      inFlightCancel := promise.inFlightFlag
      pendingCancel := promise.pending }
  | .getResult => { client with
      inFlightGetResult := promise.inFlightFlag
      pendingGetResult := promise.pending }

def arrive (client : TypedActionClient goalBuf resultBuf) (rpc : ActionRpc)
    (answer : ReplyAnswer resultBuf) : TypedActionClient goalBuf resultBuf :=
  { client with
    replies := Function.update client.replies rpc ((client.replies rpc).arrive answer) }

end TypedActionClient

/-- The one error there can be is `Serialization`. -/
def Serializes {α : Type} (result : Except NodeError α) : Prop :=
  ∀ e, result = .error e → e = .serialization

theorem serializes_mapError {α ε : Type} (result : Except ε α) :
    Serializes (result.mapError fun _ => NodeError.serialization) := by
  intro e failed
  cases result with
  | error _ =>
    cases failed
    rfl
  | ok _ => cases failed

theorem Serializes.bind {α β : Type} {result : Except NodeError α}
    {next : α → Except NodeError β} (first : Serializes result)
    (second : ∀ a, Serializes (next a)) : Serializes (result >>= next) := by
  intro e failed
  cases result with
  | error e' =>
    cases failed
    exact first e rfl
  | ok a => exact second a e failed

theorem writeGoalId_serializes (writer : CdrWriter) (goalId : GoalUuid) :
    Serializes (writeGoalId writer goalId) := by
  rw [writeGoalId]
  generalize goalId.uuid.toList = bytes
  induction bytes generalizing writer with
  | nil => exact fun _ failed => by cases failed
  | cons b bytes ih =>
    rw [List.foldlM_cons]
    exact (serializes_mapError _).bind ih

section Send

variable {goalBuf : Nat}

theorem live_inserted (pending : ActionRequests) (live : pending.live = []) (seq : Int64)
    (goalId : GoalUuid) : (match pending.insert seq goalId with
      | .ok pending => pending
      | .error _ => pending).live = [(seq, goalId)] := by
  have room : pending.len < maxConcurrentGoals := by
    rw [← pending.length_live, live]
    decide
  rcases pending.insert_of_room seq goalId room with ⟨pending', stored, appended, _⟩
  rw [stored]
  simp [appended, live]

theorem sendGoalRaw_channel (core : ActionClientCore goalBuf) (goalCdr : List UInt8) :
    RequestChannel.Sends ⟨core.sendGoalClient, false, core.pendingSendGoal⟩
      ⟨(core.sendGoalRaw goalCdr).2.sendGoalClient, (core.sendGoalRaw goalCdr).1.isOk,
        (core.sendGoalRaw goalCdr).2.pendingSendGoal⟩ (core.sendGoalRaw goalCdr).1 := by
  rw [ActionClientCore.sendGoalRaw]
  cases allowed : core.pendingSendGoal.canSend with
  | error refusal =>
    refine .failed _ rfl rfl rfl fun _ => .inr ?_
    simp [allowed]
  | ok _ =>
    dsimp only
    cases CdrWriter.newWithHeader core.goalBuffer with
    | error => exact .failed _ rfl rfl rfl fun same => by cases same
    | ok writer =>
      dsimp only
      cases written : writeGoalId writer (counterGoalId (core.goalCounter + 1)) with
      | error e =>
        refine .failed _ rfl rfl rfl fun same => ?_
        rw [writeGoalId_serializes _ _ e written] at same
        cases same
      | ok writer =>
        dsimp only
        split
        case isTrue => exact .failed _ rfl rfl rfl fun same => by cases same
        case isFalse =>
          cases answered : core.sendGoalClient.answers core.sendGoalClient.calls with
          | error e =>
            simp only [RmwServiceClient.sendRequestRaw, answered]
            exact .failed _ rfl rfl rfl fun same => by cases same
          | ok seq =>
            simp only [RmwServiceClient.sendRequestRaw, answered]
            exact .sent seq _ _ _ rfl rfl rfl fun live => live_inserted _ live seq _

theorem sendRequest_channel (client : RmwServiceClient) (pending : ActionRequests)
    (goalBuffer : List UInt8) (goalId : GoalUuid) (write : CdrWriter → Except NodeError CdrWriter)
    (serializes : ∀ writer, Serializes (write writer)) :
    RequestChannel.Sends ⟨client, false, pending⟩
      ⟨(sendRequest client pending goalBuffer goalId write).2.1,
        (sendRequest client pending goalBuffer goalId write).1.isOk,
        (sendRequest client pending goalBuffer goalId write).2.2.1⟩
      (sendRequest client pending goalBuffer goalId write).1 := by
  rw [sendRequest]
  cases allowed : pending.canSend with
  | error refusal =>
    refine .failed _ rfl rfl rfl fun _ => .inr ?_
    simp [allowed]
  | ok _ =>
    dsimp only
    cases CdrWriter.newWithHeader goalBuffer with
    | error => exact .failed _ rfl rfl rfl fun same => by cases same
    | ok writer =>
      dsimp only
      cases written : write writer with
      | error e =>
        refine .failed _ rfl rfl rfl fun same => ?_
        rw [serializes writer e written] at same
        cases same
      | ok writer =>
        cases answered : client.answers client.calls with
        | error e =>
          simp only [RmwServiceClient.sendRequestRaw, answered]
          exact .failed _ rfl rfl rfl fun same => by cases same
        | ok seq =>
          simp only [RmwServiceClient.sendRequestRaw, answered]
          exact .sent seq _ _ _ rfl rfl rfl fun live => live_inserted _ live seq _

end Send

namespace TypedActionClient

variable {γ ρ α : Type} {goalBuf resultBuf : Nat}

/-- A request asked for on one channel; the other channels are as they were. -/
structure Asks (client next : TypedActionClient goalBuf resultBuf) (rpc : ActionRpc)
    (result : Except NodeError α) : Prop where
  sends : (client.channel rpc).Sends (next.channel rpc) result
  others : ∀ other, other ≠ rpc → next.channel other = client.channel other

theorem sendGoal_eq (action : RosAction Value ρ) (ty : FieldType)
    (emitted : action.serializeGoal = serialize ty) (client : TypedActionClient goalBuf resultBuf)
    (goal : Value) :
    client.sendGoal action goal = ((client.toActionClient.sendGoal ty goal).1,
      { client with toActionClient := (client.toActionClient.sendGoal ty goal).2 }) := by
  rw [sendGoal, ActionClient.sendGoal, emitted]
  split
  · rfl
  · cases serialize ty goal (CdrWriter.new (List.replicate goalBuf 0)) with
    | error => rfl
    | ok writer =>
      dsimp only
      rcases client.core.sendGoalRaw (writer.buf.take writer.position) with ⟨e | goalId, core⟩
      · rfl
      · rfl

theorem sendGoal_asks (action : RosAction γ ρ) (client : TypedActionClient goalBuf resultBuf)
    (goal : γ) :
    client.Asks (client.sendGoal action goal).2 .sendGoal (client.sendGoal action goal).1 := by
  rw [sendGoal]
  split
  case isTrue up => exact ⟨.failed _ rfl rfl rfl fun _ => .inl up, fun _ _ => rfl⟩
  case isFalse down =>
    rw [Bool.not_eq_true] at down
    cases action.serializeGoal goal (CdrWriter.new (List.replicate goalBuf 0)) with
    | error => exact ⟨.failed _ rfl rfl rfl fun same => (by cases same), fun _ _ => rfl⟩
    | ok writer =>
      dsimp only
      have sends := sendGoalRaw_channel client.core (writer.buf.take writer.position)
      generalize client.core.sendGoalRaw (writer.buf.take writer.position) = outcome at sends ⊢
      rcases outcome with ⟨e | goalId, core⟩
      all_goals
        refine ⟨?_, fun other different => by cases other <;> first | rfl | contradiction⟩
        rw [channel, channel, down]
        exact sends

variable (client : TypedActionClient goalBuf resultBuf)

theorem cancelGoal_asks (goalId : GoalUuid) :
    client.Asks (client.cancelGoal goalId).2 .cancelGoal (client.cancelGoal goalId).1 := by
  have serializes (writer : CdrWriter) : Serializes (do
      let writer ← writeGoalId writer goalId
      let writer ← (writer.writeI32 0).mapError fun _ => NodeError.serialization
      (writer.writeU32 0).mapError fun _ => NodeError.serialization) :=
    (writeGoalId_serializes writer goalId).bind fun _ =>
      (serializes_mapError _).bind fun _ => serializes_mapError _
  rw [cancelGoal]
  split
  case isTrue up => exact ⟨.failed _ rfl rfl rfl fun _ => .inl up, fun _ _ => rfl⟩
  case isFalse down =>
    rw [Bool.not_eq_true] at down
    have sends := sendRequest_channel client.cancelGoalClient client.pendingCancel
      client.core.goalBuffer goalId _ serializes
    rw [sendCancelRequest, sendCancelRequestStamped]
    generalize sendRequest client.cancelGoalClient client.pendingCancel client.core.goalBuffer
      goalId _ = outcome at sends ⊢
    rcases outcome with ⟨e | seq, handle, pending, buffer⟩
    all_goals
      refine ⟨?_, fun other different => by cases other <;> first | rfl | contradiction⟩
      rw [channel, channel, down]
      exact sends.map fun _ => ()

theorem getResult_asks (goalId : GoalUuid) :
    client.Asks (client.getResult goalId).2 .getResult (client.getResult goalId).1 := by
  rw [getResult]
  split
  case isTrue up => exact ⟨.failed _ rfl rfl rfl fun _ => .inl up, fun _ _ => rfl⟩
  case isFalse down =>
    rw [Bool.not_eq_true] at down
    have sends := sendRequest_channel client.getResultClient client.pendingGetResult
      client.core.goalBuffer goalId _ fun writer => writeGoalId_serializes writer goalId
    rw [sendGetResultRequest]
    generalize sendRequest client.getResultClient client.pendingGetResult client.core.goalBuffer
      goalId _ = outcome at sends ⊢
    rcases outcome with ⟨e | seq, handle, pending, buffer⟩
    all_goals
      refine ⟨?_, fun other different => by cases other <;> first | rfl | contradiction⟩
      rw [channel, channel, down]
      exact sends.map fun _ => ()

theorem channel_after (rpc other : ActionRpc)
    (promise : Promise GoalUuid maxConcurrentGoals resultBuf) :
    (client.after rpc promise).channel other =
      if other = rpc then (client.channel rpc).polled promise else client.channel other := by
  cases rpc <;> cases other <;> rfl

theorem channel_reset (rpc other : ActionRpc) : (client.reset rpc).channel other =
      if other = rpc then (client.channel rpc).reset else client.channel other := by
  cases rpc <;> cases other <;> rfl

end TypedActionClient

end NanoRos
