import NanoRos.Node.ActionClient
import NanoRos.Node.ResultWire
import NanoRos.Serdes.Unframed

/-! A goal on its way to the server's handler and feedback on its way to the client. -/

namespace NanoRos

open LittleEndian Memory

/-- The client of the promise path, which has one `send_goal` reply in flight at most. -/
structure ActionClient (goalBuf : Nat) where
  core : ActionClientCore goalBuf
  inFlightSendGoal : Bool

inductive SendPath where
  | promise
  | callback
  deriving DecidableEq

section Send

variable {goalBuf : Nat}

def ActionClient.sendGoal (ty : FieldType) (client : ActionClient goalBuf) (goal : Value) :
    Except NodeError GoalUuid × ActionClient goalBuf :=
  if client.inFlightSendGoal then (.error .requestInFlight, client)
  else
    match serialize ty goal (CdrWriter.new (List.replicate goalBuf 0)) with
    | .error _ => (.error .serialization, client)
    | .ok writer =>
      match client.core.sendGoalRaw (writer.buf.take writer.position) with
      | (.error e, core) => (.error e, { client with core := core })
      | (.ok goalId, core) => (.ok goalId, ⟨core, true⟩)

/-- The writer of the callback client has a header in front. -/
def ActionClientCallback.sendGoal (ty : FieldType) (core : ActionClientCore goalBuf)
    (goal : Value) : Except NodeError GoalUuid × ActionClientCore goalBuf :=
  match CdrWriter.newWithHeader (List.replicate goalBuf 0) with
  | .error _ => (.error .bufferTooSmall, core)
  | .ok writer =>
    match serialize ty goal writer with
    | .error _ => (.error .serialization, core)
    | .ok writer => core.sendGoalRaw (writer.buf.take writer.position)

def ActionClient.send (path : SendPath) (ty : FieldType) (client : ActionClient goalBuf)
    (goal : Value) : Except NodeError GoalUuid × ActionClient goalBuf :=
  match path with
  | .promise => client.sendGoal ty goal
  | .callback =>
    let sent := ActionClientCallback.sendGoal ty client.core goal
    (sent.1, { client with core := sent.2 })

/-- The bytes a path hands to the framing. -/
def SendPath.payload (path : SendPath) (wire : Wire UInt8) : List UInt8 :=
  match path with
  | .promise => wire 0
  | .callback => cdrLeHeader ++ wire 0

/-- A client that can send, and whose backend numbers the next request `seq`. -/
structure ActionClient.Idle (client : ActionClient goalBuf) (seq : Int64) : Prop where
  sized : client.core.goalBuffer.length = goalBuf
  free : client.core.pendingSendGoal.canSend = .ok ()
  quiet : client.inFlightSendGoal = false
  answers : client.core.sendGoalClient.answers client.core.sendGoalClient.calls = .ok seq

def ActionClient.nextGoalId (client : ActionClient goalBuf) : GoalUuid :=
  counterGoalId (client.core.goalCounter + 1)

theorem serialize_header {ty : FieldType} {v : Value} (conforms : Conforms ty v)
    (lengths : LengthsFit ty v) {buf : List UInt8}
    (room : 4 + (typedWire ty v 0).length ≤ buf.length) :
    ∃ opened w, CdrWriter.newWithHeader buf = .ok opened ∧ serialize ty v opened = .ok w ∧
      w.buf.take w.position = cdrLeHeader ++ typedWire ty v 0 := by
  have open4 : 4 ≤ buf.length := by omega
  have ready := ActionServerCore.replyWriter_ready buf open4
  have fits : (ActionServerCore.replyWriter buf).pos + (typedWire ty v 0).length ≤
      (ActionServerCore.replyWriter buf).buf.length := by
    rw [ActionServerCore.length_replyWriter buf open4]
    exact room
  have written := serialize_eq_emit ty v _ conforms lengths ready rfl
  have joined := overwrite_append buf 0 cdrLeHeader (typedWire ty v 0)
    (by rw [Nat.zero_add]; exact open4)
  have whole := take_overwrite buf 0 (cdrLeHeader ++ typedWire ty v 0) (Nat.zero_le _)
  rw [List.take_zero, List.nil_append, Nat.zero_add, ← joined, List.length_append] at whole
  exact ⟨_, _, ActionServerCore.newWithHeader_eq_ok buf open4,
    written.trans (CdrWriter.put_eq_ok _ ready _ fits), whole⟩

theorem sendGoalRaw_sends {client : ActionClient goalBuf} {seq : Int64} (idle : client.Idle seq)
    {goalCdr : List UInt8} (fits : goalPayloadOffset + goalCdr.length ≤ goalBuf) :
    ∃ core', client.core.sendGoalRaw goalCdr = (.ok client.nextGoalId, core') ∧
      core'.sendGoalClient.sent =
        client.core.sendGoalClient.sent ++ [(seq, goalFrame client.nextGoalId goalCdr)] := by
  rcases client.core.sendGoalRaw_fits goalCdr idle.sized idle.free fits with ⟨buffer, _, sent⟩
  rw [sent, RmwServiceClient.sendRequestRaw, idle.answers]
  exact ⟨_, rfl, rfl⟩

theorem send_sends (path : SendPath) {ty : FieldType} {client : ActionClient goalBuf}
    {seq : Int64} (idle : client.Idle seq) {goal : Value} (conforms : Conforms ty goal)
    (lengths : LengthsFit ty goal)
    (fits : goalPayloadOffset + (path.payload (typedWire ty goal)).length ≤ goalBuf) :
    ∃ client', client.send path ty goal = (.ok client.nextGoalId, client') ∧
      client'.core.sendGoalClient.sent = client.core.sendGoalClient.sent ++
        [(seq, goalFrame client.nextGoalId (path.payload (typedWire ty goal)))] := by
  rcases sendGoalRaw_sends idle fits with ⟨core', sent, frames⟩
  cases path with
  | promise =>
    have room : (typedWire ty goal 0).length ≤ (List.replicate goalBuf (0 : UInt8)).length := by
      rw [List.length_replicate]
      exact Nat.le_of_add_left_le fits
    rcases serialize_new conforms lengths room with ⟨w, written, bytes⟩
    refine ⟨⟨core', true⟩, ?_, frames⟩
    rw [SendPath.payload] at sent
    simp only [ActionClient.send, ActionClient.sendGoal, idle.quiet, written, bytes, sent]
    rfl
  | callback =>
    have room : 4 + (typedWire ty goal 0).length ≤ (List.replicate goalBuf (0 : UInt8)).length := by
      rw [SendPath.payload, List.length_append] at fits
      rw [List.length_replicate]
      exact Nat.le_of_add_left_le fits
    rcases serialize_header conforms lengths room with ⟨opened, w, header, written, bytes⟩
    refine ⟨{ client with core := core' }, ?_, frames⟩
    rw [SendPath.payload] at sent
    simp only [ActionClient.send, ActionClientCallback.sendGoal, header, written, bytes, sent]

end Send

section Receive

variable {serverBuf resultBuf maxGoals : Nat}

/-- The goal type's own `deserialize`. -/
def decodeAs (ty : FieldType) (reader : CdrReader) : Option Value :=
  match deserialize ty reader with
  | .ok (value, _) => some value
  | .error _ => none

/-- What the goal handler of `try_accept_goal` is called with, if it is called. -/
def ActionServer.handed (ty : FieldType) (server : ActionServer Value serverBuf resultBuf maxGoals)
    (take : Take serverBuf) : Option (GoalUuid × Value) :=
  match server.core.tryRecvGoalRequest take with
  | (.ok (some rawReq), core) =>
    match decodeGoal (decodeAs ty) core.goalBuffer rawReq with
    | .ok goal => some (rawReq.goalId, goal)
    | .error _ => none
  | _ => none

theorem skipU8_iterate {r : CdrReader} {goalId : GoalUuid} (ready : r.Ready)
    (holds : r.Holds (Wire.lit goalId.uuid.toList)) (k : Nat) (inside : k ≤ 16) :
    skipU8^[k] r = { r with pos := r.pos + k } := by
  induction k with
  | zero => rfl
  | succ k ih =>
    rw [Function.iterate_succ_apply', ih (Nat.le_of_succ_le inside), skipU8,
      readU8_of_goalId ready holds k inside]

theorem skipU8_goalFrame (goalId : GoalUuid) (cdr : List UInt8) :
    skipU8^[goalUuidSize] ⟨goalFrame goalId cdr, 4, 4, .xcdr1⟩ =
      ⟨goalFrame goalId cdr, goalPayloadOffset, 4, .xcdr1⟩ := by
  have ready : CdrReader.Ready ⟨goalFrame goalId cdr, 4, 4, .xcdr1⟩ := by
    refine ⟨Nat.le_refl _, ?_⟩
    change 4 ≤ (goalFrame goalId cdr).length
    rw [length_goalFrame, goalPayloadOffset]
    omega
  exact skipU8_iterate ready (goalFrame_holds goalId cdr) 16 (Nat.le_refl _)

theorem handed_goalFrame (ty : FieldType)
    (server : ActionServer Value serverBuf resultBuf maxGoals) (take : Take serverBuf)
    (request : ServiceRequest serverBuf) (taken : take.outcome = .ok (some request))
    {goalId : GoalUuid} {cdr : List UInt8}
    (bytes : slice take.buf request.dataOffset request.dataLen = goalFrame goalId cdr) :
    server.handed ty take =
      (decodeAs ty ⟨goalFrame goalId cdr, goalPayloadOffset, 4, .xcdr1⟩).map (goalId, ·) := by
  have named : requestGoalId (server.core.takeRequest take).goalBuffer request = .ok goalId := by
    simp only [requestGoalId, ActionServerCore.takeRequest, bytes, newWithHeader_goalFrame,
      Except.mapError, ok_bind, readGoalId_goalFrame]
    rfl
  have raw : server.core.tryRecvGoalRequest take =
      (.ok (some ⟨goalId, request.sequenceNumber, request.dataOffset, request.dataLen⟩),
        server.core.takeRequest take) := by
    simp only [ActionServerCore.tryRecvGoalRequest, taken, received, named]
  rw [ActionServer.handed, raw]
  simp only [decodeGoal, ActionServerCore.takeRequest, bytes, newWithHeader_goalFrame,
    skipU8_goalFrame]
  cases decodeAs ty ⟨goalFrame goalId cdr, goalPayloadOffset, 4, .xcdr1⟩ with
  | none => rfl
  | some goal => rfl

end Receive

section Decode

variable {ty : FieldType} {v : Value} (goalId : GoalUuid)

theorem ready_behindGoalId (cdr : List UInt8) :
    CdrReader.Ready ⟨goalFrame goalId cdr, goalPayloadOffset, 4, .xcdr1⟩ := by
  refine ⟨show 4 ≤ 20 by decide, ?_⟩
  change goalPayloadOffset ≤ (goalFrame goalId cdr).length
  rw [length_goalFrame]
  exact Nat.le_add_right _ _

theorem drop_goalFrame (cdr : List UInt8) : (goalFrame goalId cdr).drop goalPayloadOffset = cdr := by
  have front : (cdrLeHeader ++ goalId.uuid.toList).length = goalPayloadOffset := by
    rw [List.length_append, Vector.length_toList]
    rfl
  rw [goalFrame, ← front, List.drop_left]

theorem deserialize_behindGoalId (conforms : Conforms ty v) (lengths : LengthsFit ty v) :
    ∃ out, deserialize ty ⟨goalFrame goalId (typedWire ty v 0), goalPayloadOffset, 4, .xcdr1⟩ =
      .ok (v, out) := by
  have periodic := typedWire_periodic ty v conforms
  have same : typedWire ty v 16 = typedWire ty v 0 := (periodic 8).trans (periodic 0)
  refine ⟨_, deserialize_of_holds ty v _ conforms lengths (ready_behindGoalId goalId _) rfl ?_⟩
  change typedWire ty v 16 <+: (goalFrame goalId (typedWire ty v 0)).drop goalPayloadOffset
  rw [same, drop_goalFrame]

theorem shifted_behindGoalId (wire : Wire UInt8) :
    Shifted ⟨goalFrame goalId (cdrLeHeader ++ wire 0), goalPayloadOffset, 4, .xcdr1⟩ 0 wire where
  ready := ready_behindGoalId goalId _
  plain := rfl
  level := show (20 - 4) % 8 = 0 % 8 by decide
  ahead := by
    change cdrLeHeader ++ wire 0 <+: (goalFrame goalId _).drop goalPayloadOffset
    rw [drop_goalFrame]

end Decode

/-- Every goal of the type reaches the handler as it was sent, under the id the client was given. -/
def GoalsDelivered (m : MessageType) (path : SendPath) : Prop :=
  ∀ (goalBuf serverBuf resultBuf maxGoals : Nat) (client : ActionClient goalBuf)
    (server : ActionServer Value serverBuf resultBuf maxGoals) (goal : Value) (seq : Int64),
    client.Idle seq → Conforms m.ty goal → LengthsFit m.ty goal →
    goalPayloadOffset + (path.payload (typedWire m.ty goal)).length ≤ goalBuf →
    ∃ goalId client' data, client.send path m.ty goal = (.ok goalId, client') ∧
      client'.core.sendGoalClient.sent = client.core.sendGoalClient.sent ++ [(seq, data)] ∧
      ∀ (take : Take serverBuf) (request : ServiceRequest serverBuf),
        take.outcome = .ok (some request) →
        slice take.buf request.dataOffset request.dataLen = data →
        server.handed m.ty take = some (goalId, goal)

theorem goalsDelivered_of_reads {m : MessageType} {path : SendPath}
    (reads : ∀ (goalId : GoalUuid) (goal : Value), Conforms m.ty goal → LengthsFit m.ty goal →
      ∃ out, deserialize m.ty
        ⟨goalFrame goalId (path.payload (typedWire m.ty goal)), goalPayloadOffset, 4, .xcdr1⟩ =
        .ok (goal, out)) : GoalsDelivered m path := by
  intro goalBuf serverBuf resultBuf maxGoals client server goal seq idle conforms lengths fits
  rcases send_sends path idle conforms lengths fits with ⟨client', sent, frames⟩
  refine ⟨client.nextGoalId, client', _, sent, frames, ?_⟩
  intro take request taken bytes
  rcases reads client.nextGoalId goal conforms lengths with ⟨out, read⟩
  rw [handed_goalFrame m.ty server take request taken bytes, decodeAs, read]
  rfl

theorem goalsDelivered_promise (m : MessageType) : GoalsDelivered m .promise :=
  goalsDelivered_of_reads fun goalId _ conforms lengths =>
    deserialize_behindGoalId goalId conforms lengths

theorem goalsDelivered_callback {m : MessageType} (quiet : (mute m.ty 0).isSome = true) :
    GoalsDelivered m .callback := by
  rcases Option.isSome_iff_exists.mp quiet with ⟨stop, place⟩
  apply goalsDelivered_of_reads
  intro goalId goal conforms lengths
  have shifted := shifted_behindGoalId goalId (typedWire m.ty goal)
  rw [← Wire.andThen_empty (typedWire m.ty goal)] at shifted
  rcases mute_reads m.ty 0 stop goal _ Wire.empty place conforms shifted with ⟨out, read, _⟩
  rw [Wire.andThen_empty] at read
  exact ⟨out, read⟩

/-- A client with nothing sent, whose backend takes every request. -/
def freshClient (goalBuf : Nat) : ActionClient goalBuf :=
  ⟨.new ⟨fun _ => .ok 0, 0, []⟩, false⟩

theorem freshClient_idle (goalBuf : Nat) : (freshClient goalBuf).Idle 0 where
  sized := List.length_replicate
  free := rfl
  quiet := rfl
  answers := rfl

/-- A server that takes these bytes as one request. -/
def takeOf (data : List UInt8) : Take data.length where
  buf := data
  sized := rfl
  outcome := .ok (some ⟨0, data.length, Nat.le_of_eq (Nat.zero_add _), 0⟩)

theorem handed_of_delivered {m : MessageType} {path : SendPath} (delivered : GoalsDelivered m path)
    {goal : Value} (conforms : Conforms m.ty goal) (lengths : LengthsFit m.ty goal)
    (goalId : GoalUuid) (next : goalId = counterGoalId 1) :
    decodeAs m.ty
      ⟨goalFrame goalId (path.payload (typedWire m.ty goal)), goalPayloadOffset, 4, .xcdr1⟩ =
      some goal := by
  have idle := freshClient_idle (goalPayloadOffset + (path.payload (typedWire m.ty goal)).length)
  let frame := goalFrame goalId (path.payload (typedWire m.ty goal))
  let server : ActionServer Value frame.length 0 1 :=
    ⟨.fromChannels ⟨fun _ => true, 0, []⟩ ⟨fun _ => true, 0, []⟩, .empty⟩
  rcases delivered _ _ _ _ _ server goal 0 idle conforms lengths (Nat.le_refl _) with
    ⟨id, client', data, sent, frames, handed⟩
  rcases send_sends path idle conforms lengths (Nat.le_refl _) with ⟨client'', sent', frames'⟩
  rw [sent, Prod.mk.injEq, Except.ok.injEq] at sent'
  rcases sent' with ⟨rfl, rfl⟩
  rw [frames', List.append_cancel_left_eq, List.singleton_inj, Prod.mk.injEq] at frames
  have same : data = frame := by
    rw [← frames.2]
    change goalFrame (counterGoalId (0 + 1)) _ = goalFrame goalId _
    rw [next]
    rfl
  have bytes : slice (takeOf frame).buf 0 frame.length = frame := by
    rw [takeOf, slice, List.drop_zero, List.take_length]
  have got := handed (takeOf frame) _ rfl (bytes.trans same.symm)
  rw [handed_goalFrame m.ty server (takeOf frame) _ rfl bytes, Option.map_eq_some_iff] at got
  rcases got with ⟨found, read, pair⟩
  rw [Prod.mk.injEq] at pair
  rw [read, pair.2]

theorem mute_of_goalsDelivered {m : MessageType} (delivered : GoalsDelivered m .callback) :
    (mute m.ty 0).isSome = true := by
  by_contra loud
  rw [Bool.not_eq_true, Option.isSome_eq_false_iff, Option.isNone_iff_eq_none] at loud
  rcases mistakes m.ty 0 m.plain loud with ⟨flag, wrong⟩
  have read := handed_of_delivered delivered (conforms_sample flag m.ty m.plain)
    (lengthsFit_sample flag m.ty) _ rfl
  have shifted := shifted_behindGoalId (counterGoalId 1) (typedWire m.ty (sample flag m.ty))
  rw [decodeAs] at read
  split at read
  case h_1 found out decoded =>
    cases read
    exact wrong _ out shifted decoded
  case h_2 => cases read

def feedbackPayloadOffset : Nat := 20

/-- The feedback topic of a server: its buffer, and what it published. -/
structure FeedbackPublisher (feedbackBuf : Nat) where
  feedbackBuffer : List UInt8
  /-- Whether the backend takes the `n`-th message. -/
  accepts : Nat → Bool
  calls : Nat
  published : List (List UInt8)

namespace FeedbackPublisher

variable {feedbackBuf : Nat}

def publishRaw (p : FeedbackPublisher feedbackBuf) (data : List UInt8) :
    Except NodeError Unit × FeedbackPublisher feedbackBuf :=
  if p.accepts p.calls then
    (.ok (), { p with calls := p.calls + 1, published := p.published ++ [data] })
  else (.error (.transport (.other "PublishFailed")), { p with calls := p.calls + 1 })

def publishFeedbackRaw (p : FeedbackPublisher feedbackBuf) (goalId : GoalUuid)
    (feedbackCdr : List UInt8) : Except NodeError Unit × FeedbackPublisher feedbackBuf :=
  if feedbackPayloadOffset + feedbackCdr.length > feedbackBuf then (.error .bufferTooSmall, p)
  else
    match CdrWriter.newWithHeader p.feedbackBuffer with
    | .error _ => (.error .bufferTooSmall, p)
    | .ok writer =>
      match writeGoalId writer goalId with
      | .error e => (.error e, p)
      | .ok writer =>
        let pos := writer.position
        if pos + feedbackCdr.length > feedbackBuf then
          (.error .bufferTooSmall, { p with feedbackBuffer := writer.buf })
        else
          let p : FeedbackPublisher feedbackBuf :=
            { p with feedbackBuffer := overwrite writer.buf pos feedbackCdr }
          p.publishRaw (p.feedbackBuffer.take (pos + feedbackCdr.length))

def publishFeedback (ty : FieldType) (p : FeedbackPublisher feedbackBuf) (goalId : GoalUuid)
    (feedback : Value) : Except NodeError Unit × FeedbackPublisher feedbackBuf :=
  match serialize ty feedback (CdrWriter.new (List.replicate feedbackBuf 0)) with
  | .error _ => (.error .serialization, p)
  | .ok writer => p.publishFeedbackRaw goalId (writer.buf.take writer.position)

theorem publishFeedback_publishes {ty : FieldType} (p : FeedbackPublisher feedbackBuf)
    (sized : p.feedbackBuffer.length = feedbackBuf) (taken : p.accepts p.calls = true)
    (goalId : GoalUuid) {feedback : Value} (conforms : Conforms ty feedback)
    (lengths : LengthsFit ty feedback)
    (fits : feedbackPayloadOffset + (typedWire ty feedback 0).length ≤ feedbackBuf) :
    ∃ p', p.publishFeedback ty goalId feedback = (.ok (), p') ∧
      p'.published = p.published ++ [goalFrame goalId (typedWire ty feedback 0)] := by
  have room : (typedWire ty feedback 0).length ≤
      (List.replicate feedbackBuf (0 : UInt8)).length := by
    rw [List.length_replicate]
    exact Nat.le_of_add_left_le fits
  rcases serialize_new conforms lengths room with ⟨w, written, bytes⟩
  rcases ActionClientCore.goalFrame_written p.feedbackBuffer goalId (typedWire ty feedback 0)
    (by rw [sized]; exact fits) with ⟨opened, framed, header, id, position, joined⟩
  have whole := ActionClientCore.take_goalFrame p.feedbackBuffer goalId (typedWire ty feedback 0)
  have small : ¬ goalPayloadOffset + (typedWire ty feedback 0).length > feedbackBuf :=
    Nat.not_lt.mpr fits
  have small' : ¬ feedbackPayloadOffset + (typedWire ty feedback 0).length > feedbackBuf :=
    Nat.not_lt.mpr fits
  simp only [publishFeedback, written, bytes, publishFeedbackRaw, if_neg small', header, id,
    position, if_neg small]
  rw [joined, whole, publishRaw, if_pos taken]
  exact ⟨_, rfl, rfl⟩

end FeedbackPublisher

/-- The `feedback_buffer` after `take_serialized`, and what it returned. -/
def tryRecvFeedbackRaw (feedbackBuffer : List UInt8)
    (outcome : Except TransportError (Option Nat)) :
    Except NodeError (Option (GoalUuid × Nat)) :=
  match outcome with
  | .error e => .error (.transport e)
  | .ok none => .ok none
  | .ok (some len) => do
    let reader ← (CdrReader.newWithHeader (feedbackBuffer.take len)).mapError
      fun _ => NodeError.transport .deserializationError
    let (goalId, _) ← readGoalId reader
    return some (goalId, len)

/-- Feedback read in place, behind the id. -/
def tryRecvFeedback (ty : FieldType) (feedbackBuffer : List UInt8)
    (outcome : Except TransportError (Option Nat)) :
    Except NodeError (Option (GoalUuid × Value)) := do
  match ← tryRecvFeedbackRaw feedbackBuffer outcome with
  | none => return none
  | some (goalId, len) =>
    let reader ← (CdrReader.newWithHeader (feedbackBuffer.take len)).mapError
      fun _ => NodeError.transport .deserializationError
    let (feedback, _) ← (deserialize ty (skipU8^[goalUuidSize] reader)).mapError
      fun _ => NodeError.transport .deserializationError
    return some (goalId, feedback)

def feedbackGoalId (msg : List UInt8) : Option GoalUuid :=
  if long : feedbackPayloadOffset ≤ msg.length then
    some ⟨⟨(slice msg 4 16).toArray, by
      rw [List.size_toArray, length_slice _ _ _ long]⟩⟩
  else none

/-- A frame without fields is not delivered. -/
def feedbackFields (msg : List UInt8) : Option (List UInt8) :=
  if msg.length ≤ feedbackPayloadOffset then none else some (msg.drop feedbackPayloadOffset)

/-- What `on_feedback` is called with, if it is called. -/
def dispatchFeedback (ty : FieldType) (feedbackBuf : Nat) (data : List UInt8) :
    Option (GoalUuid × Value) := do
  let goalId ← feedbackGoalId data
  let fields ← feedbackFields data
  let fb ← readActionField ty feedbackBuf data fields
  return (goalId, fb)

section Feedback

variable {ty : FieldType} {v : Value} (conforms : Conforms ty v) (lengths : LengthsFit ty v)
  (goalId : GoalUuid)

include conforms lengths

theorem tryRecvFeedback_goalFrame {feedbackBuffer : List UInt8}
    (arrived : goalFrame goalId (typedWire ty v 0) <+: feedbackBuffer) :
    tryRecvFeedback ty feedbackBuffer
        (.ok (some (goalFrame goalId (typedWire ty v 0)).length)) = .ok (some (goalId, v)) := by
  rcases arrived with ⟨rest, rfl⟩
  rcases deserialize_behindGoalId goalId conforms lengths with ⟨out, read⟩
  have raw : tryRecvFeedbackRaw (goalFrame goalId (typedWire ty v 0) ++ rest)
      (.ok (some (goalFrame goalId (typedWire ty v 0)).length)) =
      .ok (some (goalId, (goalFrame goalId (typedWire ty v 0)).length)) := by
    simp only [tryRecvFeedbackRaw, List.take_left, newWithHeader_goalFrame, Except.mapError,
      ok_bind, readGoalId_goalFrame]
    rfl
  simp only [tryRecvFeedback, raw, ok_bind, List.take_left, newWithHeader_goalFrame,
    Except.mapError, skipU8_goalFrame, read]
  rfl

theorem dispatchFeedback_goalFrame (some : typedWire ty v 0 ≠ []) {feedbackBuf : Nat}
    (fits : (goalFrame goalId (typedWire ty v 0)).length ≤ feedbackBuf) :
    dispatchFeedback ty feedbackBuf (goalFrame goalId (typedWire ty v 0)) = .some (goalId, v) := by
  have length := length_goalFrame goalId (typedWire ty v 0)
  have positive := List.length_pos_iff.mpr some
  have offset : goalPayloadOffset = feedbackPayloadOffset := rfl
  have id : feedbackGoalId (goalFrame goalId (typedWire ty v 0)) = .some goalId := by
    have bytes : slice (goalFrame goalId (typedWire ty v 0)) 4 16 = goalId.uuid.toList := by
      have here := slice_of_isPrefix_drop _ _ _ (goalFrame_holds goalId (typedWire ty v 0))
      rwa [Wire.lit, Vector.length_toList] at here
    rw [feedbackGoalId, dif_pos (by omega)]
    simp only [bytes]
    rfl
  have fields : feedbackFields (goalFrame goalId (typedWire ty v 0)) = .some (typedWire ty v 0) := by
    rw [feedbackFields, if_neg (by omega), ← offset, drop_goalFrame]
  have field : readActionField ty feedbackBuf (goalFrame goalId (typedWire ty v 0))
      (typedWire ty v 0) = .some v := by
    rw [goalFrame, List.append_assoc]
    rw [length, goalPayloadOffset] at fits
    exact readActionField_eq conforms lengths (by omega) _
  simp only [dispatchFeedback, id, fields, field, Option.bind_eq_bind, Option.bind_some]
  rfl

end Feedback

/-- Feedback reaches the client on both paths, with the id it was published under. -/
def FeedbackDelivered (m : MessageType) : Prop :=
  ∀ (feedbackBuf clientBuf : Nat) (p : FeedbackPublisher feedbackBuf) (goalId : GoalUuid)
    (feedback : Value), p.feedbackBuffer.length = feedbackBuf → p.accepts p.calls = true →
    Conforms m.ty feedback → LengthsFit m.ty feedback → typedWire m.ty feedback 0 ≠ [] →
    feedbackPayloadOffset + (typedWire m.ty feedback 0).length ≤ feedbackBuf →
    feedbackPayloadOffset + (typedWire m.ty feedback 0).length ≤ clientBuf →
    ∃ p' data, p.publishFeedback m.ty goalId feedback = (.ok (), p') ∧
      p'.published = p.published ++ [data] ∧ (∀ feedbackBuffer, data <+: feedbackBuffer →
        tryRecvFeedback m.ty feedbackBuffer (.ok (some data.length)) =
          .ok (some (goalId, feedback))) ∧
      dispatchFeedback m.ty clientBuf data = some (goalId, feedback)

theorem feedbackDelivered (m : MessageType) : FeedbackDelivered m := by
  intro feedbackBuf clientBuf p goalId feedback sized taken conforms lengths some fits room
  rcases p.publishFeedback_publishes sized taken goalId conforms lengths fits with
    ⟨p', published, frames⟩
  refine ⟨p', _, published, frames, ?_, ?_⟩
  · intro feedbackBuffer arrived
    exact tryRecvFeedback_goalFrame conforms lengths goalId arrived
  · apply dispatchFeedback_goalFrame conforms lengths goalId some
    rw [length_goalFrame]
    exact room

theorem goals_and_feedback_delivered_iff (goal feedback : MessageType) :
    (GoalsDelivered goal .promise ∧ GoalsDelivered goal .callback) ∧ FeedbackDelivered feedback ↔
      (mute goal.ty 0).isSome = true := by
  constructor
  · rintro ⟨⟨_, callback⟩, _⟩
    exact mute_of_goalsDelivered callback
  · intro quiet
    exact ⟨⟨goalsDelivered_promise goal, goalsDelivered_callback quiet⟩, feedbackDelivered feedback⟩

def orderGoal : MessageType := ⟨⟨"Goal", [⟨"order", .int32, 0⟩]⟩, rfl⟩

/-- The request that carries `order = 10` from a fresh callback client. -/
def orderFrame : List UInt8 := goalFrame (counterGoalId 1) (cdrLeHeader ++ [10, 0, 0, 0])

/-- An `int32` sent by the callback client: the handler gets the header, 256. -/
theorem order_goal_replaced : ¬ GoalsDelivered orderGoal .callback ∧
    ((freshClient 64).send .callback orderGoal.ty (.struct [.i32 10])).2.core.sendGoalClient.sent =
      [(0, orderFrame)] ∧
    ∀ server : ActionServer Value orderFrame.length 0 1,
      server.handed orderGoal.ty (takeOf orderFrame) =
        some (counterGoalId 1, .struct [.i32 256]) := by
  refine ⟨?_, ?_, ?_⟩
  · intro delivered
    exact absurd (mute_of_goalsDelivered delivered) (by decide)
  · have conforms : Conforms orderGoal.ty (.struct [.i32 10]) := ⟨_, rfl, _, _, rfl, ⟨10, rfl⟩, rfl⟩
    rcases send_sends .callback (freshClient_idle 64) conforms ⟨trivial, trivial⟩ (by decide) with
      ⟨client', sent, frames⟩
    rw [sent]
    exact frames
  · intro server
    have bytes : slice (takeOf orderFrame).buf 0 orderFrame.length = orderFrame := by
      rw [takeOf, slice, List.drop_zero, List.take_length]
    rw [handed_goalFrame orderGoal.ty server (takeOf orderFrame) _ rfl bytes]
    rfl

end NanoRos
